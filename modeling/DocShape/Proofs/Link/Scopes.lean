import DocShape.Proofs.Link.Anchors
import DocShape.Proofs.Link.Tags

/-!
Targets of tags have lexical scope. Inside a declaration a target may mean something below each of the
declarations around, or what it says by itself (`Meaning`). Of the meanings that are documented the innermost
one counts (`findTag_eq_some_iff`), and further targets only hide it behind one that stands further in
(`Chosen.of_extends`). So a tag is a link just where some meaning of its target is documented
(`linkTag_scoped`).
-/

namespace DocShape.Link

/-! ## Meanings -/

/-- The full names that a target may mean inside the declarations around, with the number of declarations
that are passed on the way out: below a declaration that has a full name, and behind all of them by itself. -/
inductive Meaning (target : Text) (outer : Place) (depth : Nat) : Text → Prop
  | below : Place.fullName (outer.drop depth) ≠ [] →
    Meaning target outer depth (Place.fullName (outer.drop depth) ++ "." ++ target)
  | itself : depth = outer.length → Meaning target outer depth target

/-- What a target is resolved to: its innermost meaning that is documented. -/
structure Chosen (resolver : Resolver) (target : Text) (outer : Place) (depth : Nat) (found : Target) :
    Prop where
  known : ∃ name, Meaning target outer depth name ∧ resolver.lookup name = some found
  innermost : ∀ depth' < depth, ∀ name, Meaning target outer depth' name → resolver.lookup name = none

/-- A resolver knows all targets of another one, and perhaps further ones. -/
def Resolver.Extends (further resolver : Resolver) : Prop :=
  ∀ name found, resolver.lookup name = some found → further.lookup name = some found

section

variable {resolver further : Resolver} {target name name' : Text} {segment : Segment} {outer : Place}
  {depth depth' : Nat} {found found' : Target}

theorem meaning_nil_iff : Meaning target [] depth name ↔ depth = 0 ∧ name = target := by
  constructor
  · rintro (named | rfl)
    · rw [List.drop_nil] at named
      exact absurd rfl named
    · exact ⟨rfl, rfl⟩
  · rintro ⟨rfl, rfl⟩
    exact .itself rfl

theorem meaning_zero_iff : Meaning target (segment :: outer) 0 name ↔
    Place.fullName (segment :: outer) ≠ [] ∧
      name = Place.fullName (segment :: outer) ++ "." ++ target := by
  constructor
  · rintro (named | h)
    · exact ⟨named, rfl⟩
    · cases h
  · rintro ⟨named, rfl⟩
    exact .below named

theorem meaning_succ_iff :
    Meaning target (segment :: outer) (depth + 1) name ↔ Meaning target outer depth name := by
  constructor
  · rintro (named | h)
    · exact .below named
    · exact .itself (Nat.succ.inj h)
  · rintro (named | rfl)
    · exact @Meaning.below target (segment :: outer) (depth + 1) named
    · exact .itself rfl

theorem Meaning.unique (h : Meaning target outer depth name) (h' : Meaning target outer depth name') :
    name = name' := by
  -- Behind all declarations around nothing is left that could have a name.
  have passed : depth = outer.length → Place.fullName (outer.drop depth) = [] := by
    rintro rfl
    rw [List.drop_length]
    rfl
  cases h with
  | below named =>
    cases h' with
    | below => rfl
    | itself all => exact absurd (passed all) named
  | itself all =>
    cases h' with
    | below named => exact absurd (passed all) named
    | itself => rfl

/-! ## The innermost one -/

theorem chosen_nil_iff : Chosen resolver target [] depth found ↔
    depth = 0 ∧ resolver.lookup target = some found := by
  constructor
  · rintro ⟨⟨name, means, known⟩, -⟩
    obtain ⟨rfl, rfl⟩ := meaning_nil_iff.1 means
    exact ⟨rfl, known⟩
  · rintro ⟨rfl, known⟩
    exact ⟨⟨target, .itself rfl, known⟩, fun _ h => absurd h (Nat.not_lt_zero _)⟩

theorem chosen_zero_iff : Chosen resolver target (segment :: outer) 0 found ↔
    Place.fullName (segment :: outer) ≠ [] ∧
      resolver.lookup (Place.fullName (segment :: outer) ++ "." ++ target) = some found := by
  constructor
  · rintro ⟨⟨name, means, known⟩, -⟩
    obtain ⟨named, rfl⟩ := meaning_zero_iff.1 means
    exact ⟨named, known⟩
  · rintro ⟨named, known⟩
    exact ⟨⟨_, .below named, known⟩, fun _ h => absurd h (Nat.not_lt_zero _)⟩

theorem chosen_succ_iff : Chosen resolver target (segment :: outer) (depth + 1) found ↔
    (Place.fullName (segment :: outer) ≠ [] →
      resolver.lookup (Place.fullName (segment :: outer) ++ "." ++ target) = none) ∧
      Chosen resolver target outer depth found := by
  constructor
  · rintro ⟨⟨name, means, known⟩, innermost⟩
    refine ⟨fun named => innermost 0 (Nat.succ_pos _) _ (.below named),
      ⟨name, meaning_succ_iff.1 means, known⟩, fun depth' h name' means' => ?_⟩
    exact innermost (depth' + 1) (Nat.succ_lt_succ h) name' (meaning_succ_iff.2 means')
  · rintro ⟨here, ⟨name, means, known⟩, innermost⟩
    refine ⟨⟨name, meaning_succ_iff.2 means, known⟩, fun depth' h name' means' => ?_⟩
    cases depth' with
    | zero =>
      obtain ⟨named, rfl⟩ := meaning_zero_iff.1 means'
      exact here named
    | succ depth' => exact innermost depth' (Nat.lt_of_succ_lt_succ h) name' (meaning_succ_iff.1 means')

/-- A target is resolved to its innermost meaning that is documented, by induction on the declarations
around. -/
theorem findTag_eq_some_iff {place : Place} : resolver.findTag (some place) target = some found ↔
    ∃ depth, Chosen resolver target (place.drop 1) depth found := by
  rw [findTag_eq, Option.getD_some]
  induction place.drop 1 with
  | nil => simp [Place.enclosing, chosen_nil_iff]
  | cons segment outer ih =>
    have cases : (∃ depth, Chosen resolver target (segment :: outer) depth found) ↔
        Chosen resolver target (segment :: outer) 0 found ∨
          ∃ depth, Chosen resolver target (segment :: outer) (depth + 1) found :=
      Nat.or_exists_add_one.symm
    rw [cases, chosen_zero_iff]
    simp only [chosen_succ_iff]
    rw [exists_and_left, ← ih, Place.enclosing, List.findSome?_cons]
    by_cases named : Place.fullName (segment :: outer) = []
    · simp [named]
    · cases resolver.lookup (Place.fullName (segment :: outer) ++ "." ++ target) <;> simp [named]

/-- Some meaning is documented just where an innermost one is. -/
theorem exists_chosen_iff : (∃ depth found, Chosen resolver target outer depth found) ↔
    ∃ depth name, Meaning target outer depth name ∧ (resolver.lookup name).isSome := by
  constructor
  · rintro ⟨depth, found, ⟨name, means, known⟩, -⟩
    exact ⟨depth, name, means, Option.isSome_of_eq_some known⟩
  · rintro ⟨depth, name, means, known⟩
    induction depth using Nat.strongRecOn generalizing name with
    | ind depth ih =>
      by_cases closer : ∃ depth' < depth, ∃ name, Meaning target outer depth' name ∧
          (resolver.lookup name).isSome
      · obtain ⟨depth', h, name', means', known'⟩ := closer
        exact ih depth' h name' means' known'
      · obtain ⟨found, known⟩ := Option.isSome_iff_exists.1 known
        refine ⟨depth, found, ⟨name, means, known⟩, fun depth' h name' means' => ?_⟩
        exact Option.not_isSome_iff_eq_none.1 fun known' => closer ⟨depth', h, name', means', known'⟩

/-- Further targets put another one in the place of the chosen one only if it stands further in and has not
been known before. -/
theorem Chosen.of_extends (extends' : further.Extends resolver)
    (h : Chosen resolver target outer depth found)
    (h' : Chosen further target outer depth' found') :
    depth' = depth ∧ found' = found ∨ depth' < depth ∧
      ∃ name, Meaning target outer depth' name ∧ resolver.lookup name = none ∧
        further.lookup name = some found' := by
  obtain ⟨name, means, known⟩ := h.known
  obtain ⟨name', means', known'⟩ := h'.known
  have still : further.lookup name = some found := extends' name found known
  rcases Nat.lt_trichotomy depth' depth with closer | rfl | farther
  · exact Or.inr ⟨closer, name', means', h.innermost depth' closer name' means', known'⟩
  · obtain rfl := means.unique means'
    exact Or.inl ⟨rfl, Option.some.inj (known'.symm.trans still)⟩
  · have hidden := h'.innermost depth farther name means
    rw [still] at hidden
    cases hidden

end

/-! ## Tags -/

/-- The tag with a target and no label. -/
def linkTag (target : Text) : Text := "\x7b@link " ++ target ++ "\x7d"

/-- The code points that a target may have: no blanks, bars and closing braces. -/
def IsTarget (target : Text) : Prop :=
  target ≠ [] ∧ ∀ c ∈ target, c.isBlank = false ∧ c ≠ 0x7c ∧ c ≠ 0x7d

section

variable {resolver further : Resolver} {scope : Option Place} {target before : Text}

theorem written_linkTag (h : IsTarget target) : Tag.Written ⟨target, []⟩ (linkTag target) := by
  have points : ∀ c ∈ target, Tag.isTargetPoint c := by
    intro c hc
    obtain ⟨blank, bar, close⟩ := h.2 c hc
    have notBar : c.val ≠ 0x7c := fun h => bar (Fin.ext h)
    have notClose : c.val ≠ 0x7d := fun h => close (Fin.ext h)
    simp [Tag.isTargetPoint, Tag.isClose, Tag.isBar, blank, notBar, notClose]
  have written : Tag.Written ⟨target, Tag.labelOf []⟩
      (("\x7b@link" : Text) ++ [] ++ (" " : Text) ++ target ++ [] ++ [0x7d]) :=
    .intro (List.mem_cons_self ..) (List.cons_ne_nil _ _)
      (List.forall_mem_singleton.2 (show (0x20 : CodePoint).isBlank by decide)) h.1 points (by simp)
      List.not_mem_nil
  have same : (("\x7b@link" : Text) ++ [] ++ (" " : Text) ++ target ++ [] ++ [0x7d]) = linkTag target := by
    rw [linkTag, List.append_nil, List.append_nil]
    rfl
  rwa [same] at written

theorem replaceTags_linkTag (h : IsTarget target) :
    replaceTags resolver scope (linkTag target) = renderTag resolver scope ⟨target, []⟩ := by
  have alone : replaceTags resolver scope (linkTag target ++ []) =
      renderTag resolver scope ⟨target, []⟩ ++ replaceTags resolver scope [] :=
    replaceTags_written (written_linkTag h) []
  rwa [List.append_nil, replaceTags, List.append_nil] at alone

/-- A tag begins with a brace. -/
theorem replaceTags_before (h : (0x7b : CodePoint) ∉ before) (s : Text) :
    replaceTags resolver scope (before ++ s) = before ++ replaceTags resolver scope s := by
  induction before with
  | nil => rfl
  | cons c before ih =>
    have start : ∀ tag written rest, Tag.Written tag written → c :: (before ++ s) ≠ written ++ rest := by
      intro tag written rest hw heq
      obtain ⟨rest', rfl⟩ := hw.opens
      have first : (("\x7b@link" : Text) ++ rest' ++ rest).head? = some 0x7b := rfl
      rw [← heq, List.head?_cons, Option.some.injEq] at first
      exact h (first ▸ List.mem_cons_self ..)
    rw [List.cons_append, replaceTags_cons start, ih fun hm => h (List.mem_cons_of_mem _ hm)]
    rfl

theorem not_isLink_code (code : Text) : ¬ IsLink ([0x60] ++ code ++ [0x60]) := by
  rintro ⟨text, link, h⟩
  have first : (("[" : Text) ++ text ++ "](" ++ link ++ ")").head? = some 0x5b := rfl
  rw [← h, List.append_assoc, List.singleton_append, List.head?_cons, Option.some.injEq] at first
  exact absurd first (by decide)

end

/-- What a tag with a target alone is replaced by inside a declaration. -/
def shownTag (resolver : Resolver) (owner : Declaration) (target : Text) : Text :=
  replaceTags resolver (some owner.place) (linkTag target)

section

variable {resolver : Resolver} {owner : Declaration} {target : Text} {depth : Nat} {found : Target}

theorem shownTag_of_chosen (h : IsTarget target)
    (chosen : Chosen resolver target owner.enclosing depth found) :
    shownTag resolver owner target = "[" ++ found.title ++ "](" ++ found.link ++ ")" := by
  have resolved : resolver.findTag (some owner.place) target = some found :=
    findTag_eq_some_iff.2 ⟨depth, chosen⟩
  rw [shownTag, replaceTags_linkTag h, renderTag, resolved]
  rfl

theorem shownTag_of_not_chosen (h : IsTarget target)
    (unknown : ¬ ∃ depth found, Chosen resolver target owner.enclosing depth found) :
    shownTag resolver owner target = [0x60] ++ target ++ [0x60] := by
  have unresolved : resolver.findTag (some owner.place) target = none := by
    refine Option.eq_none_iff_forall_ne_some.2 fun found resolved => unknown ?_
    obtain ⟨depth, chosen⟩ := findTag_eq_some_iff.1 resolved
    exact ⟨depth, found, chosen⟩
  rw [shownTag, replaceTags_linkTag h, renderTag, unresolved]
  rfl

theorem isLink_shownTag_iff (h : IsTarget target) : IsLink (shownTag resolver owner target) ↔
    ∃ depth found, Chosen resolver target owner.enclosing depth found := by
  constructor
  · intro link
    by_contra unknown
    rw [shownTag_of_not_chosen h unknown] at link
    exact not_isLink_code target link
  · rintro ⟨depth, found, chosen⟩
    exact ⟨found.title, found.link, shownTag_of_chosen h chosen⟩

end

/-- The targets of tags inside a declaration have lexical scope. -/
structure HasLexicalScope (resolver : Resolver) (owner : Declaration) (target : Text) : Prop where
  /-- A tag with the target is replaced in the same way in every text. -/
  anywhere : ∀ before after : Text, (0x7b : CodePoint) ∉ before →
    replaceTags resolver (some owner.place) (before ++ (linkTag target ++ after)) =
      before ++ (shownTag resolver owner target ++ replaceTags resolver (some owner.place) after)
  /-- It becomes a link just where some meaning of the target is documented, -/
  link : IsLink (shownTag resolver owner target) ↔
    ∃ depth name, Meaning target owner.enclosing depth name ∧ (resolver.lookup name).isSome
  /-- then the innermost one that is, -/
  innermost : IsLink (shownTag resolver owner target) →
    ∃ depth found, Chosen resolver target owner.enclosing depth found ∧
      shownTag resolver owner target = "[" ++ found.title ++ "](" ++ found.link ++ ")"
  /-- and else it becomes code. -/
  code : ¬ IsLink (shownTag resolver owner target) →
    shownTag resolver owner target = [0x60] ++ target ++ [0x60]
  /-- Further targets turn no link into code, -/
  stays : ∀ further : Resolver, further.Extends resolver →
    IsLink (shownTag resolver owner target) → IsLink (shownTag further owner target)
  /-- and change a link only for a meaning that stands further in and is new. -/
  changes : ∀ further : Resolver, further.Extends resolver → ∀ depth found depth' found',
    Chosen resolver target owner.enclosing depth found →
    Chosen further target owner.enclosing depth' found' →
    depth' = depth ∧ found' = found ∨ depth' < depth ∧
      ∃ name, Meaning target owner.enclosing depth' name ∧ resolver.lookup name = none ∧
        further.lookup name = some found'
  /-- In a project, what is documented are its declarations, and the link is that of one of them. -/
  documented : ∀ (style : Style) (project : Project), resolver = style.resolver project →
    (IsLink (shownTag resolver owner target) ↔
      ∃ d ∈ project.documented, ∃ depth, Meaning target owner.enclosing depth d.fullName) ∧
    ∀ depth found, Chosen resolver target owner.enclosing depth found →
      ∃ d ∈ project.documented, Meaning target owner.enclosing depth d.fullName ∧ found = style.target d

/-- Tags are resolved by lexical scope, whatever declaration they stand in and whatever is documented. -/
theorem linkTag_scoped (resolver : Resolver) (owner : Declaration) {target : Text}
    (h : IsTarget target) : HasLexicalScope resolver owner target where
  anywhere before after hb := by
    rw [replaceTags_before hb, replaceTags_written (written_linkTag h), shownTag, replaceTags_linkTag h]
  link := (isLink_shownTag_iff h).trans exists_chosen_iff
  innermost link := by
    obtain ⟨depth, found, chosen⟩ := (isLink_shownTag_iff h).1 link
    exact ⟨depth, found, chosen, shownTag_of_chosen h chosen⟩
  code code := shownTag_of_not_chosen h fun chosen => code ((isLink_shownTag_iff h).2 chosen)
  stays further extends' link := by
    rw [isLink_shownTag_iff h, exists_chosen_iff] at link ⊢
    obtain ⟨depth, name, means, known⟩ := link
    obtain ⟨found, known⟩ := Option.isSome_iff_exists.1 known
    exact ⟨depth, name, means, Option.isSome_of_eq_some (extends' name found known)⟩
  changes further extends' _ _ _ _ chosen chosen' := chosen.of_extends extends' chosen'
  documented style project hr := by
    subst hr
    constructor
    · rw [isLink_shownTag_iff h, exists_chosen_iff]
      constructor
      · rintro ⟨depth, name, means, known⟩
        obtain ⟨d, hd, rfl⟩ := Style.isSome_lookup_iff.1 known
        exact ⟨d, hd, depth, means⟩
      · rintro ⟨d, hd, depth, means⟩
        exact ⟨depth, d.fullName, means, Style.isSome_lookup_iff.2 ⟨d, hd, rfl⟩⟩
    · intro depth found chosen
      obtain ⟨name, means, known⟩ := chosen.known
      obtain ⟨d, hd, rfl, rfl⟩ := Style.exists_of_lookup known
      exact ⟨d, hd, means, rfl⟩

/-- Beside `X` in the module `a_b` the target `X` is the member of that module. -/
theorem linkTag_scoped_besideX :
    IsTarget "X" ∧ ∃ p, Project.ofMembers Style.twoSpaces = .ok p ∧ ∃ owner ∈ p.documented,
      owner.fullName = "a_b.Y" ∧ HasLexicalScope ((Style.below "/docs").resolver p) owner "X" ∧
      shownTag ((Style.below "/docs").resolver p) owner "X" = "[a_b.X](/docs/a_b/#type-X)" := by
  have target : IsTarget "X" :=
    ⟨List.cons_ne_nil _ _, List.forall_mem_singleton.2 (by decide)⟩
  have loaded : (Project.ofMembers Style.twoSpaces).toOption.any fun p => p.documented.any fun owner =>
      owner.fullName == "a_b.Y" && shownTag ((Style.below "/docs").resolver p) owner "X" ==
        "[a_b.X](/docs/a_b/#type-X)" := by decide +kernel
  obtain ⟨p, hp, h⟩ := Journal.exists_ok_of_any loaded
  obtain ⟨owner, documented, h⟩ := List.any_eq_true.1 h
  obtain ⟨name, shown⟩ := Bool.and_eq_true_iff.1 h
  exact ⟨target, p, hp, owner, documented, eq_of_beq name, linkTag_scoped _ owner target,
    eq_of_beq shown⟩

end DocShape.Link
