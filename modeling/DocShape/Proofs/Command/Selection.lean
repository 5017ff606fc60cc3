import DocShape.Proofs.Command.Failures

/-!
Selections choose among results and do not change them (`run_selection`): what a run leaves is the text of
the part of one traversal of all documented declarations that its selection chooses, and a run ends in a
malformed declaration just where a chosen one is malformed, which is the first such one.
-/

namespace DocShape.Command

open Json (Members member)

/-! ## The loop -/

/-- All declarations under their full names, each with what its conversion ends in. -/
def traversal (resolver : Link.Resolver) (l : List Declaration) : Table (Except Violation Shape) :=
  Table.ofList (l.map fun d => (d.fullName, (convert resolver d).outcome))

/-- The first declaration of a list whose conversion fails. -/
def FirstMalformed (resolver : Link.Resolver) (l : List Declaration) (name : Text) (v : Violation) :
    Prop :=
  ∃ before d after, l = before ++ d :: after ∧
    (∀ e ∈ before, ∃ s, (convert resolver e).outcome = .ok s) ∧
    (convert resolver d).outcome = .error v ∧ name = d.fullName

variable {resolver : Link.Resolver} {selection : Selection}

theorem convertLogged_eq_error {d : Declaration} {f : Failure} :
    (convertLogged resolver d).outcome = .error f ↔
      ∃ v, (convert resolver d).outcome = .error v ∧ f = .malformedDeclaration d.fullName v := by
  unfold convertLogged
  dsimp only
  cases (convert resolver d).outcome with
  | ok s => simp [Except.mapError]
  | error v => simp [Except.mapError, eq_comm]

private theorem firstMalformed_cons {d : Declaration} {rest : List Declaration} {name : Text}
    {v : Violation} : FirstMalformed resolver (d :: rest) name v ↔
      ((convert resolver d).outcome = .error v ∧ name = d.fullName) ∨
      ((∃ s, (convert resolver d).outcome = .ok s) ∧ FirstMalformed resolver rest name v) := by
  constructor
  · rintro ⟨before, e, after, hl, hbefore, he, hname⟩
    cases before with
    | nil =>
      cases hl
      exact .inl ⟨he, hname⟩
    | cons b before =>
      cases hl
      obtain ⟨hb, hbefore⟩ := List.forall_mem_cons.1 hbefore
      exact .inr ⟨hb, before, e, after, rfl, hbefore, he, hname⟩
  · rintro (⟨hd, hname⟩ | ⟨hd, before, e, after, rfl, hbefore, he, hname⟩)
    · exact ⟨[], d, rest, rfl, by simp, hd, hname⟩
    · exact ⟨d :: before, e, after, rfl, List.forall_mem_cons.2 ⟨hd, hbefore⟩, he, hname⟩

/-- The loop ends in a failure just at the first malformed declaration that is chosen. -/
theorem convertAll_eq_error {table : Table Shape} {l : List Declaration} {f : Failure} :
    (convertAll resolver selection table l).outcome = .error f ↔
      ∃ name v, f = .malformedDeclaration name v ∧
        FirstMalformed resolver (selection.chosen l) name v := by
  induction l generalizing table with
  | nil =>
    have none : ∀ name v, ¬ FirstMalformed resolver (selection.chosen []) name v := by
      rintro name v ⟨before, d, after, hl, -⟩
      exact List.append_ne_nil_of_right_ne_nil before (List.cons_ne_nil d after) hl.symm
    constructor
    · rintro ⟨⟩
    · rintro ⟨name, v, -, h⟩
      exact absurd h (none name v)
  | cons d rest ih =>
    rw [convertAll]
    by_cases hs : selection.selects d.fullName
    · simp only [if_pos hs, Selection.chosen_cons_of_pos hs, Journal.outcome_bind_eq_error, convertLogged_eq_error,
        convertLogged_eq_ok, firstMalformed_cons, ih]
      constructor
      · rintro (⟨v, hd, hf⟩ | ⟨s, hd, name, v, hf, h⟩)
        · exact ⟨d.fullName, v, hf, .inl ⟨hd, rfl⟩⟩
        · exact ⟨name, v, hf, .inr ⟨⟨s, hd⟩, h⟩⟩
      · rintro ⟨name, v, hf, ⟨hd, rfl⟩ | ⟨⟨s, hd⟩, h⟩⟩
        · exact .inl ⟨v, hd, hf⟩
        · exact .inr ⟨s, hd, name, v, hf, h⟩
    · rw [if_neg hs, Selection.chosen_cons_of_neg hs]
      simpa [Journal.outcome_bind_eq_error, log] using @ih table

/-- The loop that ends well leaves the chosen part of the traversal. -/
theorem convertAll_traversal {table : Table Shape} {l : List Declaration}
    (h : (convertAll resolver selection [] l).outcome = .ok table) :
    table.map (fun e => (e.1, Except.ok e.2)) =
      (traversal resolver l).filter fun e => selection.selects e.1 := by
  obtain ⟨shapes, hshapes, rfl⟩ := convertAll_eq_ok h
  have entries : (entriesOf (selection.chosen l) shapes).map (fun e => (e.1, Except.ok e.2)) =
      (selection.chosen l).map fun d => (d.fullName, (convert resolver d).outcome) := by
    have pairs : ((selection.chosen l).map (·.fullName)).zip
        ((selection.chosen l).map fun d => (convert resolver d).outcome) =
        (selection.chosen l).map fun d => (d.fullName, (convert resolver d).outcome) :=
      List.zip_map' ..
    rw [← pairs, hshapes, List.zip_map_right]
    rfl
  have chosen : (l.map fun d => (d.fullName, (convert resolver d).outcome)).filter
      (fun e => selection.selects e.1) =
      (selection.chosen l).map fun d => (d.fullName, (convert resolver d).outcome) := by
    rw [List.filter_map]
    rfl
  rw [traversal, Table.filter_ofList, chosen, ← entries, ← Table.map_ofList]
  rfl

private theorem convertAll_get? {table : Table Shape} {l : List Declaration} {name : Text}
    (h : (convertAll resolver selection [] l).outcome = .ok table) (hn : selection.selects name) :
    (Table.get? table name).map Except.ok = Table.get? (traversal resolver l) name := by
  rw [← Table.get?_map, convertAll_traversal h, Table.get?_filter hn]

/-! ## Runs -/

/-- A run comes as far as its loop. -/
structure Reaches (files : Files) (o : Options) (s : Source) : Prop where
  document : ∃ text, files.document (normalPath o.document) = some text ∧
    loadDocument text = .ok s.project
  config : settings files o = .ok s.config
  level : ∃ level, threshold s.config o.verbose = .ok level
  targets : linkTargets s.config s.project = .ok s.targets
  skipped : Selection.readSkipped (member s.config "skip") = .ok s.skipped

/-- A run fails in a stage around its loop, or in the loop, at the first malformed declaration. -/
theorem run_eq_error {files : Files} {o : Options} {f : Failure} (h : (run files o).result = .error f) :
    IsFairIn files o f ∨ ∃ name v s, f = .malformedDeclaration name v ∧ Reaches files o s ∧
      FirstMalformed s.resolver (s.selected o) name v := by
  unfold run at h
  split at h
  · rename_i e hp
    cases h
    exact Or.inl (prepare_fair files o f hp)
  · rename_i text config level hp
    obtain ⟨hd, hc, hl⟩ := prepare_eq_ok.1 hp
    obtain ⟨loaded, hloaded, keeps⟩ := settings_eq_ok hc
    have stage : IsFair config f → IsFairIn files o f := fun fair =>
      Or.inr ⟨loaded, hloaded, keeps.fair fair⟩
    simp only [job, Journal.outcome_bind_eq_error, Journal.outcome_liftM] at h
    rcases h with h | ⟨project, hproject, h | ⟨-, -, h | ⟨targets, htargets, h | ⟨-, -,
      h | ⟨skipped, hskipped, h | ⟨table, -, h | ⟨written, -, h⟩⟩⟩⟩⟩⟩⟩
    · exact Or.inl (stage (loadDocument_fair config text f h))
    · cases h
    · exact Or.inl (stage (linkTargets_fair project f h))
    · cases h
    · exact Or.inl (stage (readSkipped_fair config _ f h))
    · obtain ⟨name, v, rfl, hfirst⟩ := convertAll_eq_error.1 h
      exact Or.inr ⟨name, v, ⟨config, project, targets, skipped⟩, rfl,
        ⟨⟨text, hd, hproject⟩, hc, ⟨level, hl⟩, htargets, hskipped⟩, hfirst⟩
    · exact Or.inl (stage (outputText_fair table f h))
    · split at h
      · cases h
      · rcases Journal.outcome_bind_eq_error.1 h with h | ⟨-, -, h⟩ <;> cases h

/-- A run blames a declaration just where its loop does. -/
private theorem run_eq_malformed {files : Files} {o : Options} {name : Text} {v : Violation} :
    (run files o).result = .error (.malformedDeclaration name v) ↔
      ∃ s, Reaches files o s ∧ FirstMalformed s.resolver (s.selected o) name v := by
  constructor
  · intro h
    rcases run_eq_error h with (fair | ⟨_, -, fair⟩) | ⟨_, _, s, ⟨⟩, reaches, hfirst⟩
    · exact (fair []).elim
    · exact fair.elim
    · exact ⟨s, reaches, hfirst⟩
  · rintro ⟨s, ⟨⟨text, hd, hproject⟩, hc, ⟨level, hl⟩, htargets, hskipped⟩, hfirst⟩
    have hp : prepare files o = .ok (text, s.config, level) := prepare_eq_ok.2 ⟨hd, hc, hl⟩
    have loop := @convertAll_eq_error s.resolver (s.selection o) [] s.project.documented _ |>.2
      ⟨name, v, rfl, hfirst⟩
    have done : (run files o).result = (job o text s.config).outcome := by
      rw [run, hp]
    simp only [done, job, Journal.outcome_bind_eq_error, Journal.outcome_liftM]
    exact .inr ⟨_, hproject, .inr ⟨_, rfl, .inr ⟨_, htargets, .inr ⟨_, rfl, .inr ⟨_, hskipped,
      .inl loop⟩⟩⟩⟩⟩

/-- Two runs read one document under one setting for links. -/
def SameProject (files files' : Files) (o o' : Options) : Prop :=
  files.document (normalPath o.document) = files'.document (normalPath o'.document) ∧
    (settings files o).map (member · "links") = (settings files' o').map (member · "links")

private theorem linkTargets_congr {config config' : Members}
    (h : member config "links" = member config' "links") (project : Project) :
    linkTargets config project = linkTargets config' project := by
  have links : section? config "links" = section? config' "links" := by
    rw [section?, section?, h]
  rw [linkTargets, linkTargets, links]

private theorem SameProject.source {files files' : Files} {o o' : Options}
    {product product' : Product} {s s' : Source} {table table' : Table Shape}
    (same : SameProject files files' o o') (h : Completes files o product s table)
    (h' : Completes files' o' product' s' table') :
    s.project = s'.project ∧ s.resolver = s'.resolver := by
  obtain ⟨text, hd, hp⟩ := h.document
  obtain ⟨text', hd', hp'⟩ := h'.document
  have document : text = text' := Option.some.inj (hd.symm.trans (same.1.trans hd'))
  have project : s.project = s'.project := by
    subst document
    exact Except.ok.inj (hp.symm.trans hp')
  have links : member s.config "links" = member s'.config "links" := by
    have settings := same.2
    rw [h.config, h'.config] at settings
    exact Except.ok.inj settings
  have targets : s.targets = s'.targets := by
    have found := h.targets
    rw [project, linkTargets_congr links] at found
    exact Except.ok.inj (found.symm.trans h'.targets)
  exact ⟨project, congrArg Link.Resolver.mk targets⟩

/-- A run that ends well leaves the text of the chosen part of the traversal; a run blames the first
malformed declaration that it chooses, and none if there is none; two runs over one project show the same
shape under every name that both choose. -/
theorem run_selection (files : Files) (o : Options) :
    (∀ product, (run files o).result = .ok product →
      ∃ s table, Completes files o product s table ∧
        Table.keys table = ((s.selected o).map (·.fullName)).eraseDups ∧
        table.map (fun e => (e.1, Except.ok e.2)) =
          (traversal s.resolver s.project.documented).filter
            fun e => (s.selection o).selects e.1) ∧
    (∀ name v, (run files o).result = .error (.malformedDeclaration name v) ↔
      ∃ s, Reaches files o s ∧ FirstMalformed s.resolver (s.selected o) name v) ∧
    (∀ files' o' product product', SameProject files files' o o' →
      (run files o).result = .ok product → (run files' o').result = .ok product' →
      ∃ s s' table table', Completes files o product s table ∧
        Completes files' o' product' s' table' ∧
        ∀ name, (s.selection o).selects name → (s'.selection o').selects name →
          Table.get? table name = Table.get? table' name) := by
  refine ⟨fun product h => ?_, fun name v => run_eq_malformed,
    fun files' o' product product' same h h' => ?_⟩
  · obtain ⟨s, table, hc⟩ := run_completes h
    exact ⟨s, table, hc, hc.holds.keys, convertAll_traversal hc.converted⟩
  · obtain ⟨s, table, hc⟩ := run_completes h
    obtain ⟨s', table', hc'⟩ := run_completes h'
    refine ⟨s, s', table, table', hc, hc', fun name hn hn' => ?_⟩
    obtain ⟨project, resolver⟩ := same.source hc hc'
    -- Both tables show what the one traversal has at the name.
    have found := convertAll_get? hc.converted hn
    have found' := convertAll_get? hc'.converted hn'
    rw [← project, ← resolver, ← found] at found'
    exact Option.map_injective (fun _ _ => Except.ok.inj) found'.symm

/-! ## A malformed declaration between two others -/

/-- A variable, a function with an untyped parameter, and a variable. -/
def aroundMalformedText : Text :=
  "\x7b\"kind\": 1, \"children\": [" ++
    "\x7b\"name\": \"a\", \"kind\": 32, \"type\": \x7b\"type\": \"intrinsic\", \"name\": \"string\"\x7d\x7d, " ++
    "\x7b\"name\": \"b\", \"kind\": 64, \"signatures\": [\x7b\"name\": \"b\", " ++
      "\"parameters\": [\x7b\"name\": \"p\"\x7d]\x7d]\x7d, " ++
    "\x7b\"name\": \"c\", \"kind\": 32, \"type\": \x7b\"type\": \"intrinsic\", \"name\": \"number\"\x7d\x7d]\x7d"

def aroundMalformed : Files := ⟨fun _ => some aroundMalformedText, fun _ => none⟩

/-- The run that converts some names alone. -/
def aroundMalformedOnly (names : List Text) : Options :=
  { document := "around.json", only := some names }

/-- The same document, with settings that skip the function. -/
def malformedSkipped : Files :=
  { aroundMalformed with config := fun _ => some (.ok (.object [("skip", .array [.text "b"])])) }

/-- The run that converts all names but the skipped ones. -/
def malformedSkippedOptions : Options := { document := "around.json", config := some "settings.yaml" }

/-- The text of the variable before the malformed declaration. -/
def beforeMalformedText : Text :=
  "\x7b\n  \"a\": \x7b\n    \"type\": \"primitive\",\n    \"primitiveType\": \"string\"\n  \x7d\n\x7d"

/-- The text of both variables, in the order of the document. -/
def besidesMalformedText : Text :=
  "\x7b\n  \"a\": \x7b\n    \"type\": \"primitive\",\n    \"primitiveType\": \"string\"\n  \x7d,\n" ++
    "  \"c\": \x7b\n    \"type\": \"primitive\",\n    \"primitiveType\": \"number\"\n  \x7d\n\x7d"

def failure? : Except Failure Product → Option Failure
  | .error f => some f
  | .ok _ => none

theorem eq_error_of_failure? {x : Except Failure Product} {f : Failure}
    (h : failure? x = some f) : x = .error f := by
  cases x with
  | ok product => cases h
  | error e => exact congrArg Except.error (Option.some.inj h)

/-- The malformed declaration does not matter to a run that asks for another one, nor to a run that skips it; a
third run asks for it, and ends there. -/
theorem run_selection_aroundMalformed :
    (∃ s s' table table',
      (run aroundMalformed (aroundMalformedOnly ["a"])).result =
        .ok (.printed (beforeMalformedText ++ "\n")) ∧
      (run malformedSkipped malformedSkippedOptions).result =
        .ok (.printed (besidesMalformedText ++ "\n")) ∧
      SameProject aroundMalformed malformedSkipped (aroundMalformedOnly ["a"]) malformedSkippedOptions ∧
      Completes aroundMalformed (aroundMalformedOnly ["a"]) (.printed (beforeMalformedText ++ "\n")) s
        table ∧
      Completes malformedSkipped malformedSkippedOptions (.printed (besidesMalformedText ++ "\n")) s'
        table' ∧
      ∀ name, (s.selection (aroundMalformedOnly ["a"])).selects name →
        (s'.selection malformedSkippedOptions).selects name →
        Table.get? table name = Table.get? table' name) ∧
    (run aroundMalformed (aroundMalformedOnly ["c", "b"])).result =
      .error (.malformedDeclaration "b" (.untypedParameter "p" "b")) ∧
    ∃ s, Reaches aroundMalformed (aroundMalformedOnly ["c", "b"]) s ∧
      FirstMalformed s.resolver (s.selected (aroundMalformedOnly ["c", "b"])) "b"
        (.untypedParameter "p" "b") := by
  have same : SameProject aroundMalformed malformedSkipped (aroundMalformedOnly ["a"])
      malformedSkippedOptions := ⟨rfl, rfl⟩
  have h : (run aroundMalformed (aroundMalformedOnly ["a"])).result =
      .ok (.printed (beforeMalformedText ++ "\n")) := eq_ok_of_toOption (by decide +kernel)
  have h' : (run malformedSkipped malformedSkippedOptions).result =
      .ok (.printed (besidesMalformedText ++ "\n")) := eq_ok_of_toOption (by decide +kernel)
  have blamed : (run aroundMalformed (aroundMalformedOnly ["c", "b"])).result =
      .error (.malformedDeclaration "b" (.untypedParameter "p" "b")) :=
    eq_error_of_failure? (by decide +kernel)
  obtain ⟨-, -, two⟩ := run_selection aroundMalformed (aroundMalformedOnly ["a"])
  obtain ⟨-, first, -⟩ := run_selection aroundMalformed (aroundMalformedOnly ["c", "b"])
  obtain ⟨s, s', table, table', hc, hc', agree⟩ := two _ _ _ _ same h h'
  exact ⟨⟨s, s', table, table', h, h', same, hc, hc', agree⟩, blamed,
    (first _ _).1 blamed⟩

end DocShape.Command
