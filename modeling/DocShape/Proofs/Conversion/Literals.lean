import DocShape.Proofs.Conversion.Calls
import DocShape.Proofs.Conversion.Nodes
import DocShape.Proofs.Json.RoundTrip

/-!
String literals in converted shapes. A literal value stands on an option of a union and nowhere else: a
literal that is no option in the source becomes a union with one option. `Converts.literal` says by its
position which entry is a literal value, `Rendered.literal` how a literal is shown at its position, and
`convert_showsLiterals` what follows for the whole shape.
-/

namespace DocShape

open Link (Resolver)

def Shape.literalValue? : Shape → Option Text
  | .primitive _ _ value => value
  | _ => none

/-- The option that shows a literal by its JSON text. -/
def literalOption (text : Text) : Shape := .primitive {} none (some text)

/-- A literal is shown by a JSON text that is read as its value. -/
def IsLiteralOption (value : Text) (s : Shape) : Prop :=
  ∃ text, (Json.Unpaired value → Json.read text = .ok (.text value)) ∧ s = literalOption text

/-- A literal is shown as an enumeration with one option. -/
def IsLoneLiteral (value : Text) (s : Shape) : Prop :=
  ∃ option, IsLiteralOption value option ∧ s = .union {} (some [option]) (some true)

/-- How a string literal is shown at a position. -/
def LiteralRule (position : Position) (t : TypeNode) (s : Shape) : Prop :=
  ∀ value, t = .stringLiteral value →
    match position with
    | .unionOption => IsLiteralOption value s
    | .elsewhere => IsLoneLiteral value s

/-- How the string literals that are visited below a declaration are shown in its shape. -/
structure ShowsLiterals (resolver : Resolver) (d : Declaration) (s : Shape) : Prop where
  /-- The declaration itself is not a literal value. -/
  root : s.literalValue? = none
  /-- Literal values are options of unions. -/
  options : ∀ n, s.IsNode n → ∀ p ∈ n.parts, p.literalValue?.isSome →
    ∃ label options isEnum, n = .union label (some options) isEnum ∧ p ∈ options
  /-- Each literal value is that of a string literal. -/
  values : ∀ n, s.IsNode n → ∀ text ∈ n.literalValue?, ∃ owner value,
    Relation.ReflTransGen Visits (.declaration d) (.type owner (.stringLiteral value)) ∧
      (Json.Unpaired value → Json.read text = .ok (.text value))
  /-- Each string literal is shown by its position. -/
  rule : ∃ body, s = attach resolver d body ∧
    Rendered resolver LiteralRule .elsewhere (.declaration d) body
  /-- Wherever a rendering has a literal that is no option, it has an enumeration with one option. -/
  lone : ∀ owner value shown,
    Rendered resolver LiteralRule .elsewhere (.type owner (.stringLiteral value)) shown →
    IsLoneLiteral value shown
  /-- And such an enumeration answers every call on a literal whose parent is no union. -/
  answers : ∀ parent owner value,
    Relation.ReflTransGen Makes (.declaration d) (.type parent owner (.stringLiteral value)) →
    (∀ options, parent ≠ some (.union options)) →
    ∃ shown, ((Answers.ofConversion resolver).type parent owner (.stringLiteral value)).outcome = .ok shown ∧
      IsLoneLiteral value shown

/-! ## Entries -/

variable {resolver : Resolver} {e : Entry} {position : Position} {s s' : Shape}

theorem Shape.Relabelled.literalValue? (h : s.Relabelled s') :
    s'.literalValue? = s.literalValue? := by
  cases h <;> cases s <;> rfl

/-- A literal is converted as its position wants it. -/
theorem literalRule_literalShape (position : Position) (value : Text) :
    LiteralRule position (.stringLiteral value) (literalShape position value) := by
  have option : IsLiteralOption value (literalShape .unionOption value) :=
    ⟨_, Json.read_outputText_text, rfl⟩
  rintro _ ⟨⟩
  cases position with
  | unionOption => exact option
  | elsewhere => exact ⟨_, option, rfl⟩

theorem VisitedLeaf.literalRule {t : TypeNode} (h : VisitedLeaf resolver e position t s) :
    LiteralRule position t s := by
  rintro value rfl
  obtain ⟨owner, -, hs⟩ := h
  cases hs
  exact literalRule_literalShape position value value rfl

/-- A literal is rendered as a leaf, and not refused. -/
theorem Rendered.literal {leaf : Position → TypeNode → Shape → Prop} {owner : Declaration} {value : Text}
    (h : Rendered resolver leaf position (.type owner (.stringLiteral value)) s) :
    leaf position (.stringLiteral value) s := by
  cases h with
  | leaf _ hs => exact hs
  | refused ht => cases ht

theorem positionIn_of_not_union {parent : Option TypeNode} (h : ∀ options, parent ≠ some (.union options)) :
    positionIn parent = .elsewhere := by
  unfold positionIn
  split
  · exact absurd rfl (h _)
  · rfl

/-- Only a string literal that is an option has a literal value. -/
theorem Converts.literal (h : Converts resolver position e s) {text : Text}
    (ht : s.literalValue? = some text) : position = .unionOption ∧ ∃ owner value,
      Relation.ReflTransGen Visits e (.type owner (.stringLiteral value)) ∧
        (Json.Unpaired value → Json.read text = .ok (.text value)) := by
  rcases h.top with composite | ⟨position', t, option, leaf, owner, reached, hs⟩ | ⟨_, _, _, _, hs⟩
  · cases s with
    | primitive => cases composite
    | _ => cases ht
  · cases t with
    | stringLiteral value =>
      cases hs
      cases position' with
      | unionOption =>
        cases ht
        exact ⟨option rfl, owner, value, reached, Json.read_outputText_text⟩
      | elsewhere => cases ht
    | intrinsic name =>
      cases hs
      cases ht
    | typeParameter name =>
      cases hs
      cases ht
    | _ => cases leaf
  · obtain ⟨_, _, _, rfl⟩ := referenceShape_eq hs
    cases ht

/-! ## Whole shapes -/

private theorem showsLiterals_options {n n' p : Shape}
    (h : Converts resolver position e n') (relabelled : n'.Relabelled n) (hp : p ∈ n.parts)
    (hv : p.literalValue?.isSome) :
    ∃ label options isEnum, n = .union label (some options) isEnum ∧ p ∈ options := by
  obtain ⟨text, ht⟩ := Option.isSome_iff_exists.1 hv
  obtain ⟨position', e', p', -, hp', same, union⟩ := h.part (relabelled.mem_parts hp)
  have option := (hp'.literal (same.literalValue?.symm.trans ht)).1
  obtain ⟨options, isEnum, rfl⟩ := union option
  cases relabelled with
  | label l => exact ⟨_, _, _, rfl, hp⟩
  | listener l => exact ⟨_, _, _, rfl, hp⟩

/-- Whatever is converted, the literals in it are shown as options, by their JSON texts. -/
theorem convert_showsLiterals (resolver : Resolver) (d : Declaration) (s : Shape)
    (h : (convert resolver d).outcome = .ok s) : ShowsLiterals resolver d s where
  root := by
    obtain ⟨body, rfl, converts⟩ := convert_converts resolver d s h
    rw [(relabelled_attach resolver d body).literalValue?]
    cases hv : body.literalValue? with
    | none => rfl
    | some text => exact absurd (converts.literal hv).1 nofun
  options n hn p hp hv := by
    obtain ⟨_, _, n', -, converts, relabelled⟩ := convert_node h hn
    exact showsLiterals_options converts relabelled hp hv
  values n hn text ht := by
    obtain ⟨_, _, n', reached, converts, relabelled⟩ := convert_node h hn
    obtain ⟨-, owner, value, below, read⟩ :=
      converts.literal (relabelled.literalValue?.symm.trans ht)
    exact ⟨owner, value, reached.trans below, read⟩
  rule := by
    obtain ⟨body, rfl, rendered⟩ := convert_rendered resolver d s h
    exact ⟨body, rfl, rendered.mono fun _ _ _ => VisitedLeaf.literalRule⟩
  lone _ value _ rendered := rendered.literal value rfl
  answers parent owner value _ other := by
    have elsewhere := positionIn_of_not_union other
    have answer : (Answers.ofConversion resolver).type parent owner (.stringLiteral value) =
        pure (literalShape (positionIn parent) value) := rfl
    rw [answer, elsewhere]
    exact ⟨_, rfl, literalRule_literalShape .elsewhere value value rfl⟩

/-- A union of a literal and a list of literals. -/
def quotedOrList : Declaration :=
  { origin := [], segment := ⟨"Mode", none⟩, enclosing := [], id := none, isOptional := false,
    comment := none, typeParameters := [], signatures := [], children := []
    type := some (.union [.stringLiteral "a\"", .array (.stringLiteral "b")]) }

theorem convert_showsLiterals_quotedOrList :
    let s : Shape := .union {} (some [literalOption "\"a\\\"\"",
      .array {} (some (.union {} (some [literalOption "\"b\""]) (some true))) none none]) (some false)
    (convert .none quotedOrList).outcome = .ok s ∧ ShowsLiterals .none quotedOrList s :=
  ⟨rfl, convert_showsLiterals .none quotedOrList _ rfl⟩

end DocShape
