import DocShape.Declaration.Graph

/-!
What is documented below a declaration. `Declaration.Reaches` says how a declaration is reached from another
one through the children of namespaces only; the documented declarations are those that are reached and are no
namespaces themselves (`mem_documented_iff`).
-/

namespace DocShape.Declaration

/-- A declaration is reached through the children of namespaces, which are listed from the outside in. -/
inductive Reaches : Declaration → List Declaration → Declaration → Prop
  | child {d c : Declaration} : c ∈ d.children → Reaches d [] c
  | through {d space e : Declaration} {spaces : List Declaration} : space ∈ d.children →
    Kind.groups space.kind → Reaches space spaces e → Reaches d (space :: spaces) e

theorem documentedIn_eq_flatMap (l : List Declaration) :
    documentedIn l = l.flatMap fun c => if Kind.groups c.kind then c.documented else [c] := by
  induction l with
  | nil => rfl
  | cons c rest ih => rw [documentedIn, ih, List.flatMap_cons]

theorem documented_eq (d : Declaration) : d.documented =
    d.children.flatMap fun c => if Kind.groups c.kind then c.documented else [c] := by
  rw [← documentedIn_eq_flatMap]
  cases d
  rw [documented]

section

variable {d e : Declaration} {spaces : List Declaration}

theorem Reaches.mem_documented (h : d.Reaches spaces e) (member : Kind.groups e.kind = false) :
    e ∈ d.documented := by
  induction h with
  | child hc =>
    rw [documented_eq, List.mem_flatMap]
    exact ⟨_, hc, by simp [member]⟩
  | through hs groups _ ih =>
    rw [documented_eq, List.mem_flatMap]
    exact ⟨_, hs, by simpa [groups] using ih member⟩

/-- What is reached in steps is a child of the last namespace that is passed. -/
theorem Reaches.last_step (h : d.Reaches spaces e) : e ∈ d.children ∨
    ∃ outer space, d.Reaches outer space ∧ Kind.groups space.kind ∧ e ∈ space.children := by
  induction h with
  | child hc => exact .inl hc
  | @through d first e spaces hs groups _ ih =>
    rcases ih with hc | ⟨outer, space, way, inner, hc⟩
    · exact .inr ⟨[], first, .child hs, groups, hc⟩
    · exact .inr ⟨first :: outer, space, .through hs groups way, inner, hc⟩

end

mutual

private theorem reaches_of_mem_documentedIn {e : Declaration} : ∀ {l : List Declaration},
    e ∈ documentedIn l → Kind.groups e.kind = false ∧
      (e ∈ l ∨ ∃ space ∈ l, Kind.groups space.kind ∧ ∃ spaces, space.Reaches spaces e)
  | [], h => by
    rw [documentedIn] at h
    cases h
  | c :: rest, h => by
    rw [documentedIn] at h
    rcases List.mem_append.1 h with h | h
    · split at h
      · rename_i groups
        obtain ⟨member, inside⟩ := reaches_of_mem_documented h
        exact ⟨member, .inr ⟨c, List.mem_cons_self .., groups, inside⟩⟩
      · rename_i single
        obtain rfl := List.mem_singleton.1 h
        exact ⟨Bool.eq_false_iff.2 single, .inl (List.mem_cons_self ..)⟩
    · obtain ⟨member, h | ⟨space, hs, inside⟩⟩ := reaches_of_mem_documentedIn h
      · exact ⟨member, .inl (List.mem_cons_of_mem _ h)⟩
      · exact ⟨member, .inr ⟨space, List.mem_cons_of_mem _ hs, inside⟩⟩

private theorem reaches_of_mem_documented {e : Declaration} : ∀ {d : Declaration},
    e ∈ d.documented → Kind.groups e.kind = false ∧ ∃ spaces, d.Reaches spaces e
  | ⟨_, _, _, _, _, _, _, _, _, children⟩, h => by
    rw [documented] at h
    obtain ⟨member, h | ⟨space, hs, groups, spaces, inside⟩⟩ := reaches_of_mem_documentedIn h
    · exact ⟨member, [], .child h⟩
    · exact ⟨member, space :: spaces, .through hs groups inside⟩

end

/-- What is documented below a declaration is what is reached from it and groups nothing. -/
theorem mem_documented_iff {d e : Declaration} :
    e ∈ d.documented ↔ Kind.groups e.kind = false ∧ ∃ spaces, d.Reaches spaces e :=
  ⟨reaches_of_mem_documented, fun ⟨member, _, h⟩ => h.mem_documented member⟩

theorem groups_of_mem_documented {d e : Declaration} (h : e ∈ d.documented) :
    Kind.groups e.kind = false :=
  (mem_documented_iff.1 h).1

end DocShape.Declaration
