import DocShape.Proofs.Conversion.Events
import DocShape.Proofs.Document.Origins

/-!
The options of converted unions. A string literal becomes a union with one option, and every other union has
one option for each object that its node lists in the document (`union_options`). What a node lists besides
objects is passed over, and so a union can be left without any option (`union_without_options`).
-/

namespace DocShape

open Document Json
open Link (Resolver)

section

variable {resolver : Resolver} {e : Entry} {position : Position} {s : Shape} {label : Label}
  {options : Option (List Shape)} {isEnum : Option Bool}

/-- A union is a literal, or it has the options of a union below. -/
theorem Converts.union (h : Converts resolver position e s) (hs : s = .union label options isEnum) :
    ∃ shown, options = some shown ∧
      ((∃ value, shown = [literalShape .unionOption value]) ∨
        ∃ owner ts, Relation.ReflTransGen Visits e (.type owner (.union ts)) ∧
          shown.length = ts.length) := by
  induction h using Converts.induction with
  | step position e s _ rule =>
    cases rule with
    | @leaf owner t _ ht ho =>
      subst hs
      cases t with
      | stringLiteral value =>
        cases position with
        | unionOption => cases ho
        | elsewhere =>
          cases ho
          exact ⟨_, rfl, Or.inl ⟨value, rfl⟩⟩
      | intrinsic | typeParameter => cases ho
      | _ => cases ht
    | union hn =>
      cases hs
      exact ⟨_, rfl, Or.inr ⟨_, _, .refl, hn.symm⟩⟩
    | @intersection owner a b sa sb =>
      cases hi : sa.intersect? sb with
      | none =>
        rw [hi] at hs
        cases hs
      | some s =>
        obtain ⟨_, _, _, rfl⟩ := Shape.exists_array_of_intersect? hi
        rw [hi] at hs
        cases hs
    | reference _ _ ho =>
      obtain ⟨_, _, _, rfl⟩ := referenceShape_eq ho
      cases hs
    | inline below | ownType _ below =>
      obtain ⟨visits, _, ih⟩ := below
      obtain ⟨shown, hshown, literal | ⟨owner, ts, reached, length⟩⟩ := ih hs
      · exact ⟨shown, hshown, Or.inl literal⟩
      · exact ⟨shown, hshown, Or.inr ⟨owner, ts, .head visits reached, length⟩⟩
    | object =>
      rcases objectShape_eq _ _ _ _ with ⟨_, _, ho⟩ | ⟨_, _, _, ha⟩
      · rw [ho] at hs
        cases hs
      · rw [ha] at hs
        cases hs
    | _ => cases hs

theorem Shape.Relabelled.union (h : s.Relabelled (.union label options isEnum)) :
    ∃ label', s = .union label' options isEnum := by
  cases s with
  | union => cases h <;> exact ⟨_, rfl⟩
  | _ => cases h

end

/-- Where the options of a union in the shape of a declaration come from. -/
inductive OptionsOf (raw : Members) (project : Project) (d : Declaration) (shown : List Shape) : Prop
  /-- A string literal that is no option in the document. -/
  | literal {value : Text} : shown = [literalShape .unionOption value] → OptionsOf raw project d shown
  /-- A union that the conversion comes to: one option for each object that its node lists. -/
  | listed {owner : Declaration} {ts : List TypeNode} {p : Pointer} {m : Members}
    {l : List (Nat × Members)} :
    Relation.ReflTransGen Visits (.declaration d) (.type owner (.union ts)) →
    IsRead raw .type p m →
    (readType (Setting.ofOutline project.outline) p m).outcome = .ok (.union ts) →
    nodes (member m "types") = .ok l → shown.length = l.length → OptionsOf raw project d shown

/-- In the shapes of a loaded document, a union that is no literal has as many options as its node in the
document lists objects. -/
theorem union_options {raw : Members} {project : Project} (hload : Project.ofMembers raw = .ok project)
    {d : Declaration}
    (inside : Relation.ReflTransGen HasPart (.declaration project.root) (.declaration d))
    (resolver : Resolver) {s n : Shape} (h : (convert resolver d).outcome = .ok s) (hn : s.IsNode n)
    {label : Label} {options : Option (List Shape)} {isEnum : Option Bool}
    (hu : n = .union label options isEnum) :
    ∃ shown, options = some shown ∧ OptionsOf raw project d shown := by
  obtain ⟨position, e, s', above, converts, relabelled⟩ := convert_node h hn
  obtain ⟨label', rfl⟩ := (hu ▸ relabelled).union
  obtain ⟨shown, hshown, ⟨value, literal⟩ | ⟨owner, ts, below, length⟩⟩ := converts.union rfl
  · exact ⟨shown, hshown, .literal literal⟩
  · have visited := above.trans below
    have part : Relation.ReflTransGen HasPart (.declaration project.root) (.type owner (.union ts)) :=
      inside.trans (Relation.ReflTransGen.mono (fun _ _ => Visits.hasPart) _ _ visited)
    obtain ⟨p, m, read, ht⟩ := isReadAt_of_hasPart (Project.ofMembers_eq_ok.1 hload).2 part
    obtain ⟨-, l, hl, length'⟩ := length_eq_of_readType (g := .union) ht
    exact ⟨shown, hshown, .listed visited read ht hl (length.trans length')⟩

/-- A document that declares a list of unions of the given types. -/
def unionDocument (types : List Value) : Members :=
  [("name", .text "p"), ("kind", .int 0), ("children", .array
    [.object [("id", .int 1), ("name", .text "Unions"), ("kind", .int 32),
      ("type", .object [("type", .text "array"),
        ("elementType", .object [("type", .text "union"), ("types", .array types)])])]])]

/-- Lists of unions with a given number of options. -/
private def isUnions (count : Nat) : Shape → Bool
  | .array _ (some (.union _ (some options) _)) _ _ => options.length = count
  | _ => false

private theorem exists_unions (types : List Value) (count : Nat)
    (h : (Project.ofMembers (unionDocument types)).toOption.any fun project =>
      project.root.children.any fun d => (convert .none d).outcome.toOption.any (isUnions count)) :
    ∃ project, Project.ofMembers (unionDocument types) = .ok project ∧
      ∃ d ∈ project.root.children, ∃ s label options isEnum, (convert .none d).outcome = .ok s ∧
        s.IsNode (.union label (some options) isEnum) ∧ options.length = count := by
  obtain ⟨project, hp, h⟩ := Journal.exists_ok_of_any h
  obtain ⟨d, hd, h⟩ := List.any_eq_true.1 h
  obtain ⟨s, hs, h⟩ := Journal.exists_ok_of_any h
  refine ⟨project, hp, d, hd, s, ?_⟩
  unfold isUnions at h
  split at h
  · exact ⟨_, _, _, hs, .part .root (List.mem_singleton.2 rfl), of_decide_eq_true h⟩
  · cases h

/-- A union of a literal and a name, with a number and a gap between them. -/
def gappedTypes : List Value :=
  [.object [("type", .text "stringLiteral"), ("value", .text "a")], .int 7, .null,
    .object [("type", .text "intrinsic"), ("name", .text "string")]]

theorem union_options_gapped :
    ∃ project, Project.ofMembers (unionDocument gappedTypes) = .ok project ∧
      ∃ d ∈ project.root.children, ∃ s label options isEnum, (convert .none d).outcome = .ok s ∧
        s.IsNode (.union label (some options) isEnum) ∧ options.length = 2 ∧
        OptionsOf (unionDocument gappedTypes) project d options := by
  obtain ⟨project, hp, d, hd, s, label, options, isEnum, hs, hn, two⟩ :=
    exists_unions gappedTypes 2 (by decide +kernel)
  obtain ⟨_, ⟨⟩, source⟩ := union_options hp (.single (.child hd)) .none hs hn rfl
  exact ⟨project, hp, d, hd, s, label, options, isEnum, hs, hn, two, source⟩

/-- A union of nothing but a gap loads and converts, to a union without options. -/
theorem union_without_options :
    ∃ project, Project.ofMembers (unionDocument [.null]) = .ok project ∧
      ∃ d ∈ project.root.children, ∃ s label isEnum, (convert .none d).outcome = .ok s ∧
        s.IsNode (.union label (some []) isEnum) := by
  obtain ⟨project, hp, d, hd, s, label, options, isEnum, hs, hn, zero⟩ :=
    exists_unions [.null] 0 (by decide +kernel)
  obtain rfl := List.length_eq_zero_iff.1 zero
  exact ⟨project, hp, d, hd, s, label, isEnum, hs, hn⟩

end DocShape
