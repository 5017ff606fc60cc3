import DocShape.Shape.Draft

/-!
Shapes never break the rules for drafts: `check_draft` for a shape as it is, `check_relabelled` and
`check_withoutReturn` for the changes that a conversion makes to one.
-/

namespace DocShape.Shape

/-- All fields of a shape belong to its tag. -/
def FieldsAllowed (s : Shape) : Prop :=
  ∃ allowed, fieldTable.lookup s.tag = some allowed ∧ ∀ f ∈ s.draft.present, f ∈ allowed

theorem fieldsAllowed (s : Shape) : s.FieldsAllowed := by
  cases s with
  | primitive label type value =>
    refine ⟨_, rfl, ?_⟩
    cases type <;> cases value <;> simp [draft, Draft.present]
  | array label element low high =>
    refine ⟨_, rfl, ?_⟩
    cases element <;> cases low <;> cases high <;> simp [draft, Draft.present]
  | object label form properties templates =>
    cases form <;> refine ⟨_, rfl, ?_⟩ <;>
      cases properties <;> cases templates <;> simp [draft, Draft.present]
  | reference label type link templates =>
    refine ⟨_, rfl, ?_⟩
    cases type <;> cases link <;> cases templates <;> simp [draft, Draft.present]
  | function label parameters returnType =>
    refine ⟨_, rfl, ?_⟩
    cases parameters <;> cases returnType <;> simp [draft, Draft.present]
  | union label options isEnum =>
    refine ⟨_, rfl, ?_⟩
    cases options <;> cases isEnum <;> simp [draft, Draft.present]
  | unknown label => exact ⟨_, rfl, by simp [draft, Draft.present]⟩

theorem check_draft (s : Shape) : s.draft.check = .ok s := by
  obtain ⟨allowed, ht, hp⟩ := s.fieldsAllowed
  have tag : s.draft.tag = s.tag := by cases s <;> rfl
  have found : s.draft.present.find? (fun field => !allowed.contains field) = none := by
    simpa using hp
  rw [Draft.check, tag, ht]
  dsimp only
  rw [found]
  cases s with
  | object label form properties templates => cases form <;> rfl
  | _ => rfl

theorem check_relabelled (s : Shape) (l : Label) :
    { s.draft with label := l }.check = .ok (s.withLabel l) := by
  have : { s.draft with label := l } = (s.withLabel l).draft := by
    cases s with
    | object label form properties templates => cases form <;> rfl
    | _ => rfl
  rw [this, check_draft]

theorem check_withoutReturn (s : Shape) (l : Label) :
    { s.draft with label := l, returnType := none }.check = .ok (s.withLabel l).withoutReturn := by
  have : { s.draft with label := l, returnType := none } = (s.withLabel l).withoutReturn.draft := by
    cases s with
    | object label form properties templates => cases form <;> rfl
    | _ => rfl
  rw [this, check_draft]

end DocShape.Shape
