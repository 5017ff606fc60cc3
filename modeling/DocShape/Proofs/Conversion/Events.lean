import DocShape.Proofs.Conversion.Nodes
import DocShape.Proofs.Conversion.Tuples

/-!
Events in converted shapes. Without link targets, every reference that is shown under the name of events has
its listener as the only template, and the listener has no return type (`convert_event_normal`). A type
parameter of that name would be shown in the same way, so that there must be none. The property is one that
relabelling keeps, and so all that is done to the shapes around an event keeps it (`Shape.KeptAround`).
-/

namespace DocShape

open Link (Resolver)

namespace Shape

def returnType? : Shape → Option Shape
  | function _ _ returnType => returnType
  | _ => none

/-- A reference that is shown as an event has just a listener, which returns nothing. -/
def IsNormalEvent : Shape → Prop
  | reference _ type _ templates => type = some (.text eventTypeName) →
    ∃ listener, templates = some [listener] ∧ listener.name = some "listener" ∧
      listener.returnType? = none
  | _ => True

/-! ## What is done around a shape -/

/-- All that a conversion does to the shapes that it has made keeps a property of their nodes. -/
structure KeptAround (P : Shape → Prop) : Prop where
  attached : ∀ resolver d s, Everywhere P s → Everywhere P (attach resolver d s)
  property : ∀ name s, Everywhere P s → Everywhere P (s.withName name)
  parameter : ∀ resolver required p s, Everywhere P s →
    Everywhere P (parameterShape resolver required p s)
  returned : ∀ resolver owner comment s, Everywhere P s →
    ∀ r ∈ returnShape resolver owner comment s, Everywhere P r
  fixedArray : ∀ s, Everywhere P s → ∀ t ∈ s.fixedArray?, Everywhere P t
  intersection : ∀ a b, Everywhere P a → Everywhere P b → ∀ t ∈ a.intersect? b, Everywhere P t

variable {P : Shape → Prop}

theorem KeptByLabels.around (kept : KeptByLabels P)
    (array : ∀ label element low high, P (array label element low high)) : KeptAround P where
  attached resolver d s h := h.relabelled kept (relabelled_attach resolver d s)
  property name s h := h.relabelled kept (relabelled_withName name s)
  parameter resolver required p s h := h.relabelled kept (.label _)
  returned resolver owner comment s h r hr := h.relabelled kept (relabelled_returnShape hr)
  fixedArray s h t ht := by
    obtain ⟨label, first, rest, templates, rfl, -, -, rfl⟩ := fixedArray?_eq_some ht
    refine .intro (array _ _ _ _) fun p hp => ?_
    cases List.mem_singleton.1 hp
    exact (h.parts first (List.mem_cons_self ..)).relabelled kept (relabelled_withName _ _)
  intersection a b ha _ t ht := by
    obtain ⟨_, _, _, _, _, _, _, _, rfl, -, -, rfl⟩ := intersect?_eq_some ht
    exact .intro (array _ _ _ _) ha.parts

theorem isNormalEvent_kept : KeptByLabels IsNormalEvent := by
  intro s s' hs h
  cases hs <;> cases s <;> exact h

end Shape

/-! ## Events without link targets -/

theorem referenceShape_normalEvent {owner : Declaration} {name : Json.Value} {target : Option Site}
    {arguments : List Shape} {s : Shape}
    (h : (referenceShape .none owner name target arguments).outcome = .ok s) : s.IsNormalEvent := by
  have unlinked : Resolver.none.linkTo owner.place target = none := by cases target <;> rfl
  unfold referenceShape at h
  dsimp only at h
  rw [unlinked] at h
  split at h
  · split at h
    · rename_i listener
      cases h
      refine fun _ => ⟨_, rfl, by simp [Shape.name, Shape.withName], ?_⟩
      cases listener <;> rfl
    · cases h
  · rename_i other
    cases h
    intro shown
    exact absurd (Json.Value.isText_iff.2 (Option.some.inj shown)) other

/-- The shape of an entry is a normal event or none at all, if no type parameter has the name of events. -/
theorem Converts.normalEvent {e : Entry} {position : Position} {s : Shape}
    (h : Converts .none position e s)
    (plain : ∀ owner, ¬ Relation.ReflTransGen Visits e (.type owner (.typeParameter eventTypeName))) :
    s.IsNormalEvent := by
  rcases h.top with composite | ⟨position', t, -, leaf, owner, reached, hs⟩ | ⟨_, _, _, _, hs⟩
  · cases s with
    | reference => cases composite
    | _ => trivial
  · cases t with
    | typeParameter name =>
      cases hs
      intro shown
      cases shown
      exact absurd reached (plain owner)
    | intrinsic name =>
      cases hs
      trivial
    | stringLiteral value =>
      cases hs
      cases position' <;> trivial
    | _ => cases leaf
  · exact referenceShape_normalEvent hs

/-- Where no type parameter of a document has the name of events, all events in the shapes of its
declarations are normal, and they stay so in whatever is made of these shapes. -/
theorem convert_event_normal (root d : Declaration)
    (plain : ∀ owner, ¬ Relation.ReflTransGen HasPart (.declaration root)
      (.type owner (.typeParameter eventTypeName)))
    (inside : Relation.ReflTransGen HasPart (.declaration root) (.declaration d)) {s : Shape}
    (h : (convert .none d).outcome = .ok s) :
    s.Everywhere Shape.IsNormalEvent ∧ Shape.KeptAround Shape.IsNormalEvent := by
  refine ⟨Shape.everywhere_of_isNode fun n hn => ?_,
    Shape.isNormalEvent_kept.around fun _ _ _ _ => trivial⟩
  obtain ⟨position, e, s', above, converts, relabelled⟩ := convert_node h hn
  refine Shape.isNormalEvent_kept s' n relabelled (converts.normalEvent fun owner below => ?_)
  exact plain owner (inside.trans
    (Relation.ReflTransGen.mono (fun _ _ => Visits.hasPart) _ _ (above.trans below)))

/-- A function that takes and returns text. -/
def echo : Declaration :=
  { origin := [], segment := ⟨"__type", some .typeLiteral⟩, enclosing := [], id := none,
    isOptional := false, comment := none, typeParameters := [], type := none, children := []
    signatures := [⟨"__type", [⟨"tab", some (.intrinsic "string"), none, false⟩],
      some (.intrinsic "string"), none⟩] }

/-- A list of events. -/
def eventList : Declaration :=
  { origin := [], segment := ⟨"onEcho", none⟩, enclosing := [], id := none, isOptional := false,
    comment := none, typeParameters := [], signatures := [], children := []
    type := some (.array (.reference "Event" [.inline echo] (.text eventTypeName) none)) }

/-- The parts of the list. -/
private theorem eventList_parts {e : Entry}
    (h : Relation.ReflTransGen HasPart (.declaration eventList) e) :
    e ∈ [.declaration eventList,
      .type eventList (.array (.reference "Event" [.inline echo] (.text eventTypeName) none)),
      .type eventList (.reference "Event" [.inline echo] (.text eventTypeName) none),
      .type eventList (.inline echo), .declaration echo, .type echo (.intrinsic "string")] := by
  induction h with
  | refl => exact List.mem_cons_self ..
  | tail _ hpart ih =>
    simp only [List.mem_cons, List.not_mem_nil, or_false] at ih ⊢
    rcases ih with rfl | rfl | rfl | rfl | rfl | rfl
    · cases hpart with
      | ownType ht =>
        cases ht
        simp
      | parameter hs => cases hs
      | returnType hs => cases hs
      | child hc => cases hc
    · cases hpart
      simp
    · cases hpart with
      | argument ht =>
        cases List.mem_singleton.1 ht
        simp
    · cases hpart
      simp
    · cases hpart with
      | ownType ht => cases ht
      | parameter hs hp ht =>
        cases List.mem_singleton.1 hs
        cases List.mem_singleton.1 hp
        cases ht
        simp
      | returnType hs ht =>
        cases List.mem_singleton.1 hs
        cases ht
        simp
      | child hc => cases hc
    · cases hpart

theorem convert_event_normal_eventList :
    let listener : Shape := .function { name := some "listener" }
      (some [.primitive { name := some "tab" } (some "string") none]) none
    let s : Shape := .array {} (some (.reference {} (some (.text eventTypeName)) none
      (some [listener]))) none none
    (convert .none eventList).outcome = .ok s ∧
      s.Everywhere Shape.IsNormalEvent ∧ Shape.KeptAround Shape.IsNormalEvent := by
  refine ⟨rfl, convert_event_normal eventList eventList (fun owner h => ?_) .refl rfl⟩
  have := eventList_parts h
  simp at this

end DocShape
