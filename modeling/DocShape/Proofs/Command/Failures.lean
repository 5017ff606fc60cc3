import DocShape.Proofs.Command.Output

/-!
Why the stages of a run fail, the conversion of declarations apart. None of them blames a declaration, and
where one blames a section of the settings, that section is no object in them (`IsFair`). Options of the
command line put objects into the settings and nothing else (`settings_eq_ok`), so that a section that is
blamed is none in the configuration that was loaded either (`KeepsObjects.fair`).
-/

namespace DocShape.Command

open Json (Value Members member member?)

/-- The sections of the settings that a run reads. -/
def sectionKeys : List Text := ["links", "output", "logging"]

/-- A failure blames no declaration, and a section only where the settings have no object there. -/
def IsFair (config : Members) : Failure → Prop
  | .settingNotAnObject key => key ∈ sectionKeys ∧ ∀ section', member config key ≠ .object section'
  | .malformedDeclaration _ _ => False
  | _ => True

/-- A stage that fails has a reason of some kind. -/
def FailsOnly {α : Type} (P : Failure → Prop) (x : Except Failure α) : Prop := ∀ f, x = .error f → P f

section

variable {α β : Type} {P Q : Failure → Prop}

theorem FailsOnly.bind {x : Except Failure α} {f : α → Except Failure β} (hx : FailsOnly P x)
    (hf : ∀ a, x = .ok a → FailsOnly P (f a)) : FailsOnly P (x >>= f) := by
  intro e h
  cases hxe : x with
  | error e' =>
    rw [hxe] at h
    cases h
    exact hx e hxe
  | ok a =>
    rw [hxe] at h
    exact hf a hxe e h

theorem FailsOnly.mono {x : Except Failure α} (hx : FailsOnly P x) (hPQ : ∀ f, P f → Q f) :
    FailsOnly Q x := fun f h => hPQ f (hx f h)

theorem failsOnly_ok (a : α) : FailsOnly P (.ok a : Except Failure α) := nofun

theorem failsOnly_error {f : Failure} (h : P f) : FailsOnly P (.error f : Except Failure α) := by
  rintro _ ⟨⟩
  exact h

theorem failsOnly_mapError {ε : Type} {x : Except ε α} {g : ε → Failure} (hg : ∀ e, P (g e)) :
    FailsOnly P (x.mapError g) := by
  cases x with
  | error e => exact failsOnly_error (hg e)
  | ok a => exact failsOnly_ok a

end

/-! ## Stages -/

section

variable {config : Members}

theorem section?_fair {key : Text} (hk : key ∈ sectionKeys) :
    FailsOnly (IsFair config) (section? config key) := by
  unfold section?
  split
  · exact failsOnly_ok _
  · rename_i other
    exact failsOnly_error ⟨hk, other⟩

theorem overrideLink_fair (key : Text) (value : Option Text) :
    FailsOnly (IsFair config) (overrideLink config key value) := by
  unfold overrideLink
  split
  · exact failsOnly_ok _
  · exact (section?_fair (by decide)).bind fun _ _ => failsOnly_ok _

theorem threshold_fair (verbose : Bool) : FailsOnly (IsFair config) (threshold config verbose) := by
  unfold threshold
  split
  · exact failsOnly_ok _
  · refine (section?_fair (by decide)).bind fun _ _ => ?_
    split
    · exact failsOnly_ok _
    · exact failsOnly_error trivial

theorem loadDocument_fair (config : Members) (text : Text) :
    FailsOnly (IsFair config) (loadDocument text) :=
  FailsOnly.bind (failsOnly_mapError fun _ => trivial) fun _ _ => failsOnly_mapError fun _ => trivial

theorem linkTargets_fair (project : Project) :
    FailsOnly (IsFair config) (linkTargets config project) := by
  refine (section?_fair (by decide)).bind fun _ _ => ?_
  split
  · exact failsOnly_ok _
  · exact (failsOnly_mapError fun _ => trivial).bind fun _ _ => failsOnly_ok _

theorem readSkipped_fair (config : Members) (v : Value) :
    FailsOnly (IsFair config) (Selection.readSkipped v) := by
  unfold Selection.readSkipped
  split
  · exact failsOnly_error trivial
  · split
    · exact failsOnly_ok _
    · exact failsOnly_error trivial

theorem outputText_fair (table : Table Shape) :
    FailsOnly (IsFair config) (outputText config table) :=
  (section?_fair (by decide)).bind fun _ _ => failsOnly_mapError fun _ => trivial

theorem loadConfig_fair (config : Members) (files : Files) (path : Option Text) :
    FailsOnly (IsFair config) (loadConfig files path) := by
  unfold loadConfig
  split
  · exact failsOnly_ok _
  · split
    · exact failsOnly_ok _
    · split
      · exact failsOnly_error trivial
      · exact failsOnly_error trivial
      · split
        · exact failsOnly_ok _
        · exact failsOnly_error trivial
        · exact failsOnly_error trivial

end

/-! ## Settings -/

/-- Settings that have the same members as others, or an object with more keys in the place of an object. -/
def KeepsObjects (config config' : Members) : Prop :=
  ∀ key, member? config' key = member? config key ∨
    ∃ old new, member? config key = some (.object old) ∧ member? config' key = some (.object new) ∧
      ∀ k, (member? old k).isSome → (member? new k).isSome

theorem KeepsObjects.refl (config : Members) : KeepsObjects config config := fun _ => Or.inl rfl

theorem KeepsObjects.trans {config config' config'' : Members} (h : KeepsObjects config config')
    (h' : KeepsObjects config' config'') : KeepsObjects config config'' := by
  intro key
  rcases h' key with same | ⟨old, new, ho, hn, keys⟩
  · rw [same]
    exact h key
  · rcases h key with same | ⟨old', new', ho', hn', keys'⟩
    · exact Or.inr ⟨old, new, same ▸ ho, hn, keys⟩
    · cases hn'.symm.trans ho
      exact Or.inr ⟨old', new, ho', hn, fun k hk => keys k (keys' k hk)⟩

theorem KeepsObjects.fair {config config' : Members} (h : KeepsObjects config config') {f : Failure}
    (fair : IsFair config' f) : IsFair config f := by
  cases f with
  | settingNotAnObject key =>
    refine ⟨fair.1, fun members hm => ?_⟩
    rcases h key with same | ⟨_, new, -, hn, -⟩
    · exact fair.2 members (by rw [member, same, ← member, hm])
    · exact fair.2 new (by rw [member, hn, Option.getD_some])
  | malformedDeclaration => exact fair.elim
  | _ => trivial

private theorem member?_of_member_eq_object {config section' : Members} {key : Text}
    (h : member config key = .object section') : member? config key = some (.object section') := by
  unfold member at h
  cases hm : member? config key with
  | none =>
    rw [hm] at h
    cases h
  | some v =>
    rw [hm] at h
    exact congrArg some h

theorem overrideLink_keeps {config config' : Members} {key : Text} {value : Option Text}
    (h : overrideLink config key value = .ok config') : KeepsObjects config config' := by
  cases value with
  | none =>
    cases h
    exact .refl config
  | some v =>
    simp only [overrideLink, section?] at h
    split at h
    · rename_i links hl
      cases h
      intro k
      have put := Table.get?_put config "links" k (.object (Table.put links key (.text v)))
      by_cases hk : k = "links"
      · subst hk
        rw [if_pos rfl] at put
        refine Or.inr ⟨links, _, member?_of_member_eq_object hl, put, fun k hk => ?_⟩
        rw [member?, Table.get?_put]
        split
        · rfl
        · exact hk
      · rw [if_neg hk] at put
        exact Or.inl put
    · cases h

theorem settings_eq_ok {files : Files} {o : Options} {config' : Members}
    (h : settings files o = .ok config') :
    ∃ config, loadConfig files o.config = .ok config ∧ KeepsObjects config config' := by
  obtain ⟨config, hc, h⟩ := bind_eq_ok.1 h
  obtain ⟨between, hb, h⟩ := bind_eq_ok.1 h
  exact ⟨config, hc, (overrideLink_keeps hb).trans (overrideLink_keeps h)⟩

/-- A failure that is fair to the configuration that was loaded, and to any other if none was. -/
def IsFairIn (files : Files) (o : Options) (f : Failure) : Prop :=
  (∀ config, IsFair config f) ∨ ∃ config, loadConfig files o.config = .ok config ∧ IsFair config f

theorem prepare_fair (files : Files) (o : Options) :
    FailsOnly (IsFairIn files o) (prepare files o) := by
  have found : FailsOnly (IsFairIn files o) ((files.document (normalPath o.document)).elim
      (.error (.documentNotFound (normalPath o.document))) .ok) := by
    cases files.document (normalPath o.document) with
    | none => exact failsOnly_error (Or.inl fun _ => trivial)
    | some text => exact failsOnly_ok text
  refine found.bind fun text _ => FailsOnly.bind ?_ fun config' hc => ?_
  · refine FailsOnly.bind (fun f h => Or.inl fun config => loadConfig_fair config files o.config f h)
      fun config hc => FailsOnly.bind ?_ fun between hb => ?_
    · exact (overrideLink_fair _ _).mono fun f fair => Or.inr ⟨config, hc, fair⟩
    · exact (overrideLink_fair _ _).mono fun f fair =>
        Or.inr ⟨config, hc, (overrideLink_keeps hb).fair fair⟩
  · obtain ⟨config, hl, keeps⟩ := settings_eq_ok hc
    exact ((threshold_fair o.verbose).mono fun f fair => Or.inr ⟨config, hl, keeps.fair fair⟩).bind
      fun _ _ => failsOnly_ok _

end DocShape.Command
