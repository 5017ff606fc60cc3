import DocShape.Proofs.Conversion.Calls
import DocShape.Proofs.Document.Origins

/-!
Conversions go inward. Every call works on a part of what the call before works on (`Makes.worksOn`), and
the parts of a declaration of a loaded document stand properly inside it. So no declaration is entered again
while it is converted, however references go round in circles; a reference leads to its arguments only, and a
literal is converted again at most once (`convert_isRecursion`).
-/

namespace DocShape

open Document (Encloses InGraph)
open Link (Resolver)

/-! ## What is entered -/

/-- The declaration that is entered by a call. -/
def Call.entered? : Call → Option Declaration
  | .declaration d => some d
  | .body d => some d
  | .type _ _ _ => none

/-- A call works on a part of an entry. -/
inductive WorksOn (e : Entry) : Call → Prop
  | declaration {d : Declaration} : Relation.ReflTransGen HasPart e (.declaration d) →
    WorksOn e (.declaration d)
  | body {d : Declaration} : Relation.ReflTransGen HasPart e (.declaration d) → WorksOn e (.body d)
  | type {parent : Option TypeNode} {owner : Declaration} {t : TypeNode} :
    Relation.ReflTransGen HasPart e (.type owner t) → WorksOn e (.type parent owner t)
  /-- A declaration as one in place, whether it stands in place or not. -/
  | inPlace {parent : Option TypeNode} {owner d : Declaration} :
    Relation.ReflTransGen HasPart e (.declaration d) → WorksOn e (.type parent owner (.inline d))
  /-- The union that is made for a literal. -/
  | lone {parent : Option TypeNode} {owner : Declaration} {value : Text} :
    Relation.ReflTransGen HasPart e (.type owner (.stringLiteral value)) →
    WorksOn e (.type parent owner (.loneLiteral value))

theorem worksOn_ofMember {e e' : Entry} (h : Relation.ReflTransGen HasPart e e') :
    WorksOn e (.ofMember e') := by
  cases e' with
  | declaration => exact .declaration h
  | type => exact .type h

theorem worksOn_inside {e e' : Entry} (h : Relation.ReflTransGen HasPart e e') (node : TypeNode) :
    WorksOn e (.inside node e') := by
  cases e' with
  | declaration => exact .body h
  | type => exact .type h

/-- The calls that are made work on parts of the same entry. -/
theorem Makes.worksOn {e : Entry} {c c' : Call} (h : Makes c c') (hc : WorksOn e c) : WorksOn e c' := by
  cases h with
  | @source d =>
    cases hc with
    | declaration hd =>
      cases ht : d.type with
      | none => exact .inPlace hd
      | some t => exact .type (hd.tail (.ownType ht))
  | member hv =>
    cases hc with
    | body hd => exact worksOn_ofMember (hd.tail hv.hasPart)
  | inside hv =>
    cases hc with
    | type ht => exact worksOn_inside (ht.tail hv.hasPart) _
    | inPlace hd =>
      cases hv
      exact .body hd
    | lone hl =>
      cases hv with
      | option ht =>
        obtain rfl := List.mem_singleton.1 ht
        exact .type hl
  | literal =>
    cases hc with
    | type ht => exact .lone ht

theorem WorksOn.calls {e : Entry} {c c' : Call} (h : WorksOn e c)
    (calls : Relation.ReflTransGen Makes c c') : WorksOn e c' := by
  induction calls with
  | refl => exact h
  | tail _ made ih => exact made.worksOn ih

theorem WorksOn.entered {e : Entry} {c : Call} {d : Declaration} (h : WorksOn e c)
    (hd : c.entered? = some d) : Relation.ReflTransGen HasPart e (.declaration d) := by
  cases h with
  | declaration h | body h =>
    cases hd
    exact h
  | _ => cases hd

/-- What is entered from the body of a declaration is a proper part of it. -/
theorem part_of_enters_body {d e : Declaration} {c : Call}
    (calls : Relation.TransGen Makes (.body d) c) (he : c.entered? = some e) :
    Relation.TransGen HasPart (.declaration d) (.declaration e) := by
  obtain ⟨c', made, calls⟩ := Relation.TransGen.head'_iff.1 calls
  cases made with
  | member hv =>
    exact .head' hv.hasPart (((worksOn_ofMember .refl).calls calls).entered he)

/-- From a declaration its own body is entered, and otherwise proper parts. -/
theorem part_of_enters_declaration {d e : Declaration} {c : Call}
    (calls : Relation.TransGen Makes (.declaration d) c) (he : c.entered? = some e) :
    c = .body d ∨ Relation.TransGen HasPart (.declaration d) (.declaration e) := by
  obtain ⟨c', made, calls⟩ := Relation.TransGen.head'_iff.1 calls
  cases made with
  | source =>
    cases ht : d.type with
    | some t =>
      rw [ht] at calls
      have start : WorksOn (.type d t) (.type none d t) := .type .refl
      exact Or.inr (.head' (.ownType ht) ((start.calls calls).entered he))
    | none =>
      rw [ht] at calls
      rcases Relation.ReflTransGen.cases_head calls with rfl | ⟨c'', made, calls⟩
      · cases he
      · cases made with
        | inside hv =>
          cases hv
          rcases Relation.reflTransGen_iff_eq_or_transGen.1 calls with rfl | calls
          · exact Or.inl rfl
          · exact Or.inr (part_of_enters_body calls he)

/-- What is entered from a type node is in it. -/
theorem mem_of_enters_type {parent : Option TypeNode} {owner e : Declaration} {t : TypeNode}
    {c : Call} (calls : Relation.ReflTransGen Makes (.type parent owner t) c)
    (he : c.entered? = some e) : e ∈ t.declarations := by
  have start : WorksOn (.type owner t) (.type parent owner t) := .type .refl
  refine (sublist_of_hasPart ((start.calls calls).entered he)).subset ?_
  rw [Entry.declarations, e.all_eq]
  exact List.mem_cons_self ..

/-- Below a reference there are the calls of its arguments, wherever it points. -/
theorem calls_of_reference {parent : Option TypeNode} {owner : Declaration} {name : Text}
    {arguments : List TypeNode} {qualifiedName : Json.Value} {target : Option Site} {c : Call} :
    Relation.TransGen Makes
        (.type parent owner (.reference name arguments qualifiedName target)) c ↔
      ∃ t ∈ arguments, Relation.ReflTransGen Makes (.type none owner t) c := by
  rw [Relation.TransGen.head'_iff]
  constructor
  · rintro ⟨c', made, calls⟩
    cases made with
    | inside hv =>
      cases hv with
      | argument ht => exact ⟨_, ht, calls⟩
  · rintro ⟨t, ht, calls⟩
    exact ⟨_, .inside (.argument ht), calls⟩

/-- Below a literal there are at most the union that is made for it and the literal as its option. -/
theorem calls_of_literal {parent : Option TypeNode} {owner : Declaration} {value : Text} {c : Call}
    (calls : Relation.TransGen Makes (.type parent owner (.stringLiteral value)) c) :
    c = .type parent owner (.loneLiteral value) ∨
      (c = .type (some (.loneLiteral value)) owner (.stringLiteral value) ∧ ∀ c', ¬ Makes c c') := by
  obtain ⟨c', made, calls⟩ := Relation.TransGen.head'_iff.1 calls
  cases made with
  | inside hv => cases hv
  | literal =>
    rcases Relation.ReflTransGen.cases_head calls with rfl | ⟨c'', made, calls⟩
    · exact Or.inl rfl
    · cases made with
      | inside hv =>
        cases hv with
        | option ht =>
          obtain rfl := List.mem_singleton.1 ht
          -- As an option the literal makes no calls, and so the calls end there.
          have last : ∀ c', ¬ Makes (.type (some (.loneLiteral value)) owner (.stringLiteral value)) c' := by
            intro c' made
            cases made with
            | inside hv => cases hv
            | literal hp => cases hp
          rcases Relation.ReflTransGen.cases_head calls with rfl | ⟨c', made, -⟩
          · exact Or.inr ⟨rfl, last⟩
          · exact absurd made (last c')

/-! ## Conversions end -/

/-- The conversion of a declaration is a well-founded recursion. -/
structure IsRecursion (resolver : Resolver) (d : Declaration) : Prop where
  equations : once resolver (.ofConversion resolver) = .ofConversion resolver
  /-- The calls that are named are all that an answer depends on. -/
  calls : ∀ c (a a' : Answers), (∀ c', Makes c c' → a.AgreeAt a' c') →
    (once resolver a).AgreeAt (once resolver a') c
  wellFounded : WellFounded fun c' c => Makes c c'
  /-- A bounded number of steps gives the shape, whatever the answers are at the beginning. -/
  ends : ∃ depth, ∀ n ≥ depth, ∀ a, ((once resolver)^[n] a).declaration d = convert resolver d
  /-- What is entered while a declaration is converted is its own body, or stands properly inside it. -/
  inward : ∀ c e c' e', Relation.ReflTransGen Makes (.declaration d) c → c.entered? = some e →
    Relation.TransGen Makes c c' → c'.entered? = some e' →
    Encloses e.origin e'.origin ∨ (c = .declaration e ∧ c' = .body e)
  /-- From a type node only declarations in it are entered. -/
  within : ∀ parent owner t c e, Relation.ReflTransGen Makes (.type parent owner t) c →
    c.entered? = some e → e ∈ t.declarations
  /-- A reference leads to its arguments and nowhere else, whatever it points at. -/
  references : ∀ parent owner name arguments qualifiedName target c,
    Relation.TransGen Makes
        (.type parent owner (.reference name arguments qualifiedName target)) c ↔
      ∃ t ∈ arguments, Relation.ReflTransGen Makes (.type none owner t) c
  /-- A literal is converted again at most once. -/
  literals : ∀ parent owner value c,
    Relation.TransGen Makes (.type parent owner (.stringLiteral value)) c →
    c = .type parent owner (.loneLiteral value) ∨
      (c = .type (some (.loneLiteral value)) owner (.stringLiteral value) ∧ ∀ c', ¬ Makes c c')

/-- Every declaration of a loaded document is converted by a well-founded recursion. -/
theorem convert_isRecursion {raw : Json.Members} {project : Project}
    (hload : Project.ofMembers raw = .ok project) {d : Declaration} (hd : InGraph project d)
    (resolver : Resolver) : IsRecursion resolver d where
  equations := once_ofConversion resolver
  calls _ _ _ h := once_congr h
  wellFounded := makes_wellFounded
  ends := by
    refine ⟨(Call.declaration d).rank + 1, fun n hn a => ?_⟩
    exact iterate_once resolver a (c := .declaration d) hn
  inward := by
    intro c e c' e' reached he below he'
    have start : WorksOn (.declaration d) (.declaration d) := .declaration .refl
    have inside := (start.calls reached).entered he
    cases c with
    | declaration =>
      cases he
      rcases part_of_enters_declaration below he' with rfl | part
      · exact Or.inr ⟨rfl, rfl⟩
      · exact Or.inl (hd.encloses hload inside part)
    | body =>
      cases he
      exact Or.inl (hd.encloses hload inside (part_of_enters_body below he'))
    | type => cases he
  within _ _ _ _ _ := mem_of_enters_type
  references _ _ _ _ _ _ _ := calls_of_reference
  literals _ _ _ _ := calls_of_literal

/-- A list whose items know the next one, the item itself in place, and a literal. -/
def cyclicDocument : Json.Members :=
  let next (arguments : List Json.Value) : Json.Value := .object
    [("type", .text "reference"), ("name", .text "Item"), ("id", .int 2),
      ("typeArguments", .array arguments)]
  let property (id : Int) (name : Text) (type : Json.Value) : Json.Value := .object
    [("id", .int id), ("name", .text name), ("kind", .int 1024), ("type", type)]
  let inPlace : Json.Value := .object [("type", .text "reflection"), ("declaration", .object
    [("id", .int 4), ("name", .text "__type"), ("kind", .int 65536),
      ("children", .array [property 5 "item" (next [])])])]
  let tag : Json.Value := .object [("type", .text "stringLiteral"), ("value", .text "item")]
  [("name", .text "p"), ("kind", .int 0), ("children", .array
    [.object [("id", .int 2), ("name", .text "Item"), ("kind", .int 256),
      ("children", .array [property 3 "next" (next [inPlace]), property 6 "tag" tag])]])]

/-- A declaration with a property that refers to the declaration itself. -/
private def refersToItself (d : Declaration) : Bool :=
  d.children.any fun c =>
    match c.type with
    | some (.reference _ _ _ target) => target == some d.site
    | _ => false

theorem convert_isRecursion_cyclicDocument :
    ∃ project, Project.ofMembers cyclicDocument = .ok project ∧ ∃ d ∈ project.root.children,
      (∃ c ∈ d.children, ∃ name arguments qualifiedName,
        c.type = some (.reference name arguments qualifiedName (some d.site))) ∧
      IsRecursion .none d := by
  have cyclic : (Project.ofMembers cyclicDocument).toOption.any
      fun project => project.root.children.any refersToItself := by decide +kernel
  obtain ⟨project, hload, cyclic⟩ := Journal.exists_ok_of_any cyclic
  obtain ⟨d, hd, cyclic⟩ := List.any_eq_true.1 cyclic
  obtain ⟨c, hc, cyclic⟩ := List.any_eq_true.1 cyclic
  refine ⟨project, hload, d, hd, ⟨c, hc, ?_⟩,
    convert_isRecursion hload (.read (.single (.child hd))) .none⟩
  split at cyclic
  · rename_i name arguments qualifiedName target ht
    exact ⟨name, arguments, qualifiedName, eq_of_beq cyclic ▸ ht⟩
  · cases cyclic

end DocShape
