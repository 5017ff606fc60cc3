import DocShape.Proofs.Conversion.Rules

/-!
What a conversion makes of each entry that it visits. `Rendered` follows the source: it has one rule for
each kind of entry, which makes the shape of the entry from the shapes of the entries that are visited for
it, and it says at which position those stand. `convert_rendered` shows that every conversion goes by these
rules, so that what holds of converted shapes can be proved by induction on them.
-/

namespace DocShape

open Link (Resolver)

theorem exists_mem_zip {α β : Type} {as : List α} {bs : List β} (hn : as.length = bs.length) {b : β}
    (hb : b ∈ bs) : ∃ a, (a, b) ∈ as.zip bs := by
  rw [← List.map_snd_zip (Nat.le_of_eq hn.symm)] at hb
  obtain ⟨⟨a, _⟩, hm, rfl⟩ := List.mem_map.1 hb
  exact ⟨a, hm⟩

/-- The shape of an entry at a position, where `leaf` says what shapes the leaves have. The options of a
union stand at the position of options; all other entries that are visited stand elsewhere. -/
inductive Rendered (resolver : Resolver) (leaf : Position → TypeNode → Shape → Prop) :
    Position → Entry → Shape → Prop
  | leaf {position : Position} {owner : Declaration} {t : TypeNode} {s : Shape} : t.isLeaf →
    leaf position t s → Rendered resolver leaf position (.type owner t) s
  | refused {position : Position} {owner : Declaration} {t : TypeNode} : t.isRefused →
    Rendered resolver leaf position (.type owner t) (.unknown {})
  | array {position : Position} {owner : Declaration} {t : TypeNode} {s : Shape} :
    Rendered resolver leaf .elsewhere (.type owner t) s →
    Rendered resolver leaf position (.type owner (.array t)) (.array {} (some s) none none)
  | tuple {position : Position} {owner : Declaration} {t : TypeNode} {rest : List TypeNode}
    {s : Shape} : (∀ t' ∈ rest, t'.sameAs t) →
    Rendered resolver leaf .elsewhere (.type owner t) s →
    Rendered resolver leaf position (.type owner (.tuple (t :: rest)))
      (.array {} (some s) (some (rest.length + 1)) (some (rest.length + 1)))
  | union {position : Position} {owner : Declaration} {options : List TypeNode}
    {shapes : List Shape} : options.length = shapes.length →
    (∀ t s, (t, s) ∈ options.zip shapes →
      Rendered resolver leaf .unionOption (.type owner t) s) →
    Rendered resolver leaf position (.type owner (.union options))
      (.union {} (some shapes) (some (shapes.all (·.isPrimitive))))
  | intersection {position : Position} {owner : Declaration} {a b : TypeNode} {sa sb : Shape} :
    Rendered resolver leaf .elsewhere (.type owner a) sa →
    Rendered resolver leaf .elsewhere (.type owner b) sb →
    Rendered resolver leaf position (.type owner (.intersection [a, b]))
      ((sa.intersect? sb).getD (.unknown {}))
  | reference {position : Position} {owner : Declaration} {name : Text}
    {arguments : List TypeNode} {qualifiedName : Json.Value} {target : Option Site}
    {shapes : List Shape} {s : Shape} : arguments.length = shapes.length →
    (∀ t s, (t, s) ∈ arguments.zip shapes →
      Rendered resolver leaf .elsewhere (.type owner t) s) →
    (referenceShape resolver owner (TypeNode.referencedName name qualifiedName target) target
      shapes).outcome = .ok s →
    Rendered resolver leaf position (.type owner (.reference name arguments qualifiedName target)) s
  | inline {position : Position} {owner d : Declaration} {s : Shape} :
    Rendered resolver leaf .elsewhere (.declaration d) s →
    Rendered resolver leaf position (.type owner (.inline d)) s
  | ownType {position : Position} {d : Declaration} {t : TypeNode} {s : Shape} :
    d.type = some t → Rendered resolver leaf .elsewhere (.type d t) s →
    Rendered resolver leaf position (.declaration d) s
  | function {position : Position} {d : Declaration} {longest : Signature}
    {shapes : SignatureShapes} (required : List Text) : SpeaksFor longest d →
    longest.parameters.length = shapes.parameters.length →
    (∀ p ∈ longest.parameters, p.type.isSome) →
    (∀ p s, (p, s) ∈ longest.parameters.zip shapes.parameters → ∀ t, p.type = some t →
      Rendered resolver leaf .elsewhere (.type d t) s) →
    longest.type.isSome = shapes.returnType.isSome →
    (∀ t s, longest.type = some t → shapes.returnType = some s →
      Rendered resolver leaf .elsewhere (.type d t) s) →
    Rendered resolver leaf position (.declaration d)
      (functionShape resolver d.place required longest shapes)
  | object {position : Position} {d : Declaration} {form : ObjectForm} {shapes : List Shape} :
    d.type = none → d.signatures = [] → ObjectForm.ofKind? d.kind = some form →
    d.children.length = shapes.length →
    (∀ c s, (c, s) ∈ d.children.zip shapes →
      Rendered resolver leaf .elsewhere (.declaration c) s) →
    Rendered resolver leaf position (.declaration d)
      (objectShape resolver d form ((d.children.zip shapes).map (propertyShape resolver)))
  | bare {position : Position} {d : Declaration} : d.type = none → d.signatures = [] →
    ObjectForm.ofKind? d.kind = none →
    Rendered resolver leaf position (.declaration d) (.unknown {})

/-- What a leaf that is visited below an entry is converted to. -/
def VisitedLeaf (resolver : Resolver) (root : Entry) (position : Position) (t : TypeNode)
    (s : Shape) : Prop :=
  ∃ owner, Relation.ReflTransGen Visits root (.type owner t) ∧
    (convertType resolver position owner t).outcome = .ok s

/-- Shapes of the entries that are visited below one, made from their leaves as these are converted. -/
abbrev RenderedBelow (resolver : Resolver) (root : Entry) :=
  Rendered resolver (VisitedLeaf resolver root)

variable {resolver : Resolver} {leaf leaf' : Position → TypeNode → Shape → Prop}
  {position : Position} {e : Entry} {s : Shape}

theorem Rendered.mono (h : Rendered resolver leaf position e s)
    (hl : ∀ position t s, leaf position t s → leaf' position t s) :
    Rendered resolver leaf' position e s := by
  induction h with
  | leaf ht hs => exact .leaf ht (hl _ _ _ hs)
  | refused ht => exact .refused ht
  | array _ ih => exact .array ih
  | tuple same _ ih => exact .tuple same ih
  | union hn _ ih => exact .union hn ih
  | intersection _ _ iha ihb => exact .intersection iha ihb
  | reference hn _ hs ih => exact .reference hn ih hs
  | inline _ ih => exact .inline ih
  | ownType ht _ ih => exact .ownType ht ih
  | function required hs hn ht _ hr _ ihp ihr => exact .function required hs hn ht ihp hr ihr
  | object ht hs hk hn _ ih => exact .object ht hs hk hn ih
  | bare ht hs hk => exact .bare ht hs hk

/-! ## Conversions go by the rules -/

variable {root : Entry}

/-- What is converted is rendered, by induction on what is visited. -/
theorem Converts.rendered (h : Converts resolver position e s)
    (reached : Relation.ReflTransGen Visits root e) :
    RenderedBelow resolver root position e s := by
  induction h using Converts.induction with
  | step position e s _ h =>
    have below : ∀ {position' e' s'}, (Visits e e' ∧ ∃ _ : Converts resolver position' e' s',
        Relation.ReflTransGen Visits root e' → RenderedBelow resolver root position' e' s') →
        RenderedBelow resolver root position' e' s' :=
      fun ⟨visits, _, ih⟩ => ih (reached.tail visits)
    cases h with
    | leaf ht hs => exact .leaf ht ⟨_, reached, hs⟩
    | refused ht => exact .refused ht
    | array h => exact .array (below h)
    | tuple same h => exact .tuple same (below h)
    | union hn h => exact .union hn fun t s hm => below (h t s hm)
    | intersection ha hb => exact .intersection (below ha) (below hb)
    | reference hn h hs => exact .reference hn (fun t s hm => below (h t s hm)) hs
    | inline h => exact .inline (below h)
    | ownType ht h => exact .ownType ht (below h)
    | function required hs h =>
      exact .function required hs h.length h.typed
        (fun p s hm t ht => below (h.parameters p s hm t ht)) h.returns
        fun t s ht hs => below (h.returnType t s ht hs)
    | object ht hs hk hn h => exact .object ht hs hk hn fun c s hm => below (h c s hm)
    | bare ht hs hk => exact .bare ht hs hk

/-- A conversion that ends well attaches the label of the declaration to the shape of its body. -/
theorem convert_converts (resolver : Resolver) (d : Declaration) :
    (convert resolver d).Ensures fun s => ∃ body, s = attach resolver d body ∧
      Converts resolver .elsewhere (.declaration d) body := by
  intro s h
  obtain ⟨body, hbody, h⟩ := Journal.outcome_bind_eq_ok.1 h
  obtain ⟨shape, hs, h⟩ := Journal.outcome_bind_eq_ok.1 h
  cases h
  rw [shapeOrUnknown_ok hs]
  exact ⟨_, rfl, .declaration hbody⟩

/-- A conversion that ends well renders the declaration, and attaches its label to the shape. -/
theorem convert_rendered (resolver : Resolver) (d : Declaration) :
    (convert resolver d).Ensures fun s => ∃ body, s = attach resolver d body ∧
      RenderedBelow resolver (.declaration d) .elsewhere (.declaration d) body := by
  intro s h
  obtain ⟨body, hs, converts⟩ := convert_converts resolver d s h
  exact ⟨body, hs, converts.rendered .refl⟩

end DocShape
