import DocShape.Command.Run
import DocShape.Proofs.Table
import Mathlib.Data.List.Basic

/-!
What a run that ends well writes (`run_output`): the text of an object (`IsTextOf`) with one entry for each
full name that is selected, in the order of first occurrence, with the shape of the last declaration of that
name. Declarations of one name share an entry (`twins_share_entry`), others do not.
-/

namespace DocShape.Command

open Json (Members member)

/-! ## Parts of a run -/

/-- What a run has read. -/
structure Source where
  config : Members
  project : Project
  targets : Table Link.Target
  skipped : List Text

/-- The declarations that a selection chooses, in order. -/
def Selection.chosen (selection : Selection) (l : List Declaration) : List Declaration :=
  l.filter fun d => selection.selects d.fullName

theorem Selection.chosen_cons_of_pos {selection : Selection} {d : Declaration}
    (h : selection.selects d.fullName) (l : List Declaration) :
    selection.chosen (d :: l) = d :: selection.chosen l := List.filter_cons_of_pos h

theorem Selection.chosen_cons_of_neg {selection : Selection} {d : Declaration}
    (h : ¬ selection.selects d.fullName) (l : List Declaration) :
    selection.chosen (d :: l) = selection.chosen l := List.filter_cons_of_neg h

namespace Source

def resolver (s : Source) : Link.Resolver := ⟨s.targets⟩

def selection (s : Source) (o : Options) : Selection := ⟨s.skipped, o.only.getD []⟩

/-- The documented declarations that are selected, in order. -/
def selected (s : Source) (o : Options) : List Declaration :=
  (s.selection o).chosen s.project.documented

end Source

def Product.text : Product → Text
  | .printed text => text
  | .written _ text => text

/-- A text is that of the object with the JSON of each shape in a table under its name, in order, as it is
indented under some settings. -/
def IsTextOf (config : Members) (table : Table Shape) (text : Text) : Prop :=
  ∃ output, member config "output" = .object output ∧
    Json.outputTextWith (member output "indent")
      (.object (table.map fun (name, shape) => (name, shape.toJson))) = .ok text

/-- A run reads a source, converts it onto a table, and leaves the text of the table with a line break. -/
structure Completes (files : Files) (o : Options) (product : Product) (s : Source)
    (table : Table Shape) : Prop where
  document : ∃ text, files.document (normalPath o.document) = some text ∧
    loadDocument text = .ok s.project
  config : settings files o = .ok s.config
  targets : linkTargets s.config s.project = .ok s.targets
  skipped : Selection.readSkipped (member s.config "skip") = .ok s.skipped
  converted : (convertAll s.resolver (s.selection o) [] s.project.documented).outcome = .ok table
  output : ∃ text, IsTextOf s.config table text ∧ product.text = text ++ "\n"

theorem prepare_eq_ok {files : Files} {o : Options} {text : Text} {config : Members}
    {level : Log.Level} : prepare files o = .ok (text, config, level) ↔
      files.document (normalPath o.document) = some text ∧ settings files o = .ok config ∧
        threshold config o.verbose = .ok level := by
  have found : ∀ e : Failure,
      (files.document (normalPath o.document)).elim (Except.error e) Except.ok =
        Except.ok text ↔ files.document (normalPath o.document) = some text := by
    intro e
    cases files.document (normalPath o.document) <;> simp
  simp only [prepare, bind_eq_ok]
  constructor
  · rintro ⟨t, ht, c, hc, l, hl, heq⟩
    cases heq
    exact ⟨(found _).1 ht, hc, hl⟩
  · rintro ⟨ht, hc, hl⟩
    exact ⟨text, (found _).2 ht, config, hc, level, hl, rfl⟩

theorem section?_eq_ok {config section' : Members} {key : Text}
    (h : section? config key = .ok section') : member config key = .object section' := by
  unfold section? at h
  split at h
  · rename_i members hm
    cases h
    exact hm
  · cases h

theorem isTextOf_of_outputText {config : Members} {table : Table Shape} {text : Text}
    (h : outputText config table = .ok text) : IsTextOf config table text := by
  obtain ⟨output, ho, h⟩ := bind_eq_ok.1 h
  exact ⟨output, section?_eq_ok ho, mapError_eq_ok.1 h⟩

theorem run_completes {files : Files} {o : Options} {product : Product}
    (h : (run files o).result = .ok product) : ∃ s table, Completes files o product s table := by
  unfold run at h
  split at h
  · cases h
  · rename_i text config level hp
    obtain ⟨hd, hc, -⟩ := prepare_eq_ok.1 hp
    simp only [job, Journal.outcome_bind_eq_ok, Journal.outcome_liftM] at h
    obtain ⟨project, hproject, -, -, targets, htargets, -, -, skipped, hskipped, table, htable,
      written, hwritten, h⟩ := h
    refine ⟨⟨config, project, targets, skipped⟩, table, ⟨text, hd, hproject⟩, hc, htargets,
      hskipped, htable, written, isTextOf_of_outputText hwritten, ?_⟩
    split at h
    · cases h
      rfl
    · obtain ⟨-, -, h⟩ := Journal.outcome_bind_eq_ok.1 h
      cases h
      rfl

/-! ## The table -/

/-- The entries that some declarations with some shapes make, one after the other. -/
def entriesOf (l : List Declaration) (shapes : List Shape) : List (Text × Shape) :=
  (l.map (·.fullName)).zip shapes

theorem convertLogged_eq_ok {resolver : Link.Resolver} {d : Declaration} {s : Shape} :
    (convertLogged resolver d).outcome = .ok s ↔ (convert resolver d).outcome = .ok s := by
  unfold convertLogged
  exact mapError_eq_ok

/-- The chosen declarations are converted, and each is put onto the table under its full name. -/
theorem convertAll_eq_ok {resolver : Link.Resolver} {selection : Selection}
    {table table' : Table Shape} {l : List Declaration}
    (h : (convertAll resolver selection table l).outcome = .ok table') :
    ∃ shapes, (selection.chosen l).map (fun d => (convert resolver d).outcome) = shapes.map .ok ∧
      table' = (entriesOf (selection.chosen l) shapes).foldl
        (fun table entry => Table.put table entry.1 entry.2) table := by
  induction l generalizing table with
  | nil =>
    cases h
    exact ⟨[], rfl, rfl⟩
  | cons d rest ih =>
    rw [convertAll] at h
    by_cases hs : selection.selects d.fullName
    · have hc := Selection.chosen_cons_of_pos hs rest
      rw [if_pos hs] at h
      obtain ⟨shape, hshape, h⟩ := Journal.outcome_bind_eq_ok.1 h
      obtain ⟨shapes, hshapes, rfl⟩ := ih h
      refine ⟨shape :: shapes, ?_, ?_⟩
      · rw [hc, List.map_cons, convertLogged_eq_ok.1 hshape, hshapes, List.map_cons]
      · rw [hc]
        rfl
    · have hc := Selection.chosen_cons_of_neg hs rest
      rw [if_neg hs] at h
      obtain ⟨-, -, h⟩ := Journal.outcome_bind_eq_ok.1 h
      rw [hc]
      exact ih h

/-- A table holds the selected declarations: all of them are converted, an entry has the shape of the
last declaration of its name, and where names differ the entries are the declarations, in order. -/
structure Holds (resolver : Link.Resolver) (selected : List Declaration) (table : Table Shape) :
    Prop where
  converts : ∀ d ∈ selected, ∃ s, (convert resolver d).outcome = .ok s
  keys : Table.keys table = (selected.map (·.fullName)).eraseDups
  last : ∀ before d after, selected = before ++ d :: after → d.fullName ∉ after.map (·.fullName) →
    ∃ s, (convert resolver d).outcome = .ok s ∧ Table.get? table d.fullName = some s
  size : table.length = selected.length ↔ (selected.map (·.fullName)).Nodup
  inOrder : (selected.map (·.fullName)).Nodup → ∃ shapes,
    selected.map (fun d => (convert resolver d).outcome) = shapes.map .ok ∧
      table = (selected.map (·.fullName)).zip shapes

private theorem holds_ofList {resolver : Link.Resolver} {selected : List Declaration}
    {shapes : List Shape}
    (h : selected.map (fun d => (convert resolver d).outcome) = shapes.map .ok) :
    Holds resolver selected (Table.ofList (entriesOf selected shapes)) := by
  have hlength : selected.length = shapes.length := by simpa using congrArg List.length h
  have hkeys : (entriesOf selected shapes).map (·.1) = selected.map (·.fullName) :=
    List.map_fst_zip (by simp [hlength])
  have hentries : (entriesOf selected shapes).length = selected.length := by
    simpa using congrArg List.length hkeys
  refine ⟨fun d hd => ?_, ?_, ?_, ?_, fun hn => ⟨shapes, h, ?_⟩⟩
  · obtain ⟨s, -, hs⟩ := Journal.exists_result h hd
    exact ⟨s, hs⟩
  · rw [Table.keys_ofList, hkeys]
  · rintro before d after rfl hlast
    -- The shapes are cut where the declarations are.
    rw [List.map_append, List.map_cons] at h
    obtain ⟨front, tail, rfl, hfront, htail⟩ := List.map_eq_append_iff.1 h.symm
    obtain ⟨s, back, rfl, hs, hback⟩ := List.map_eq_cons_iff.1 htail
    have hf : (before.map (·.fullName)).length = front.length := by
      simpa using (congrArg List.length hfront).symm
    refine ⟨s, hs.symm, ?_⟩
    rw [entriesOf, List.map_append, List.map_cons, List.zip_append hf, List.zip_cons_cons]
    refine Table.get?_ofList_of_last fun hm => hlast ?_
    obtain ⟨e, he, hk⟩ := List.mem_map.1 hm
    exact hk ▸ (List.of_mem_zip he).1
  · rw [← hkeys, ← hentries]
    exact Table.length_ofList_eq_iff _
  · exact Table.ofList_of_nodup (by rwa [hkeys])

theorem Completes.holds {files : Files} {o : Options} {product : Product} {s : Source}
    {table : Table Shape} (h : Completes files o product s table) :
    Holds s.resolver (s.selected o) table := by
  obtain ⟨shapes, hshapes, htable⟩ := convertAll_eq_ok h.converted
  rw [htable]
  exact holds_ofList hshapes

/-- A run that ends well has converted all selected declarations, and leaves the text of an object with one
entry for each of their names. -/
theorem run_output {files : Files} {o : Options} {product : Product}
    (h : (run files o).result = .ok product) :
    ∃ s table, Completes files o product s table ∧ Holds s.resolver (s.selected o) table := by
  obtain ⟨s, table, hc⟩ := run_completes h
  exact ⟨s, table, hc, hc.holds⟩

/-! ## Declarations of one name -/

/-- Two variables of one name. -/
def twinsText : Text :=
  "\x7b\"kind\": 1, \"children\": [" ++
    "\x7b\"name\": \"a\", \"kind\": 32, \"type\": \x7b\"type\": \"intrinsic\", \"name\": \"string\"\x7d\x7d, " ++
    "\x7b\"name\": \"a\", \"kind\": 32, \"type\": \x7b\"type\": \"intrinsic\", \"name\": \"number\"\x7d\x7d]\x7d"

def twins : Files := ⟨fun _ => some twinsText, fun _ => none⟩

def twinsNames : List Text := ["a", "a"]

def twinsOptions : Options := { document := "twins.json" }

/-- The second variable alone. -/
def twinsOutput : Product :=
  .printed ("\x7b\n  \"a\": \x7b\n    \"type\": \"primitive\",\n" ++
    "    \"primitiveType\": \"number\"\n  \x7d\n\x7d\n")

theorem eq_ok_of_toOption {x : Except Failure Product} {product : Product}
    (h : x.toOption = some product) : x = .ok product := by
  cases x with
  | error e => cases h
  | ok product => exact congrArg Except.ok (Option.some.inj h)

private theorem twins_result : (run twins twinsOptions).result = .ok twinsOutput :=
  eq_ok_of_toOption (by decide +kernel)

theorem run_output_twins :
    (run twins twinsOptions).result = .ok twinsOutput ∧
      ∃ s table, Completes twins twinsOptions twinsOutput s table ∧
        Holds s.resolver (s.selected twinsOptions) table :=
  ⟨twins_result, run_output twins_result⟩

private theorem twins_selected {s : Source} {table : Table Shape}
    (h : Completes twins twinsOptions twinsOutput s table) :
    (s.selected twinsOptions).map (·.fullName) = twinsNames := by
  obtain ⟨text, ht, hp⟩ := h.document
  have hconfig : s.config = Config.defaults := by
    have : settings twins twinsOptions = .ok Config.defaults := rfl
    exact (Except.ok.inj (this.symm.trans h.config)).symm
  have hskipped : s.skipped = [] := by
    have : Selection.readSkipped (member Config.defaults "skip") = .ok [] := rfl
    exact (Except.ok.inj (this.symm.trans (hconfig ▸ h.skipped))).symm
  have names : (loadDocument twinsText).toOption.map
      (fun p => ((Selection.mk [] []).chosen p.documented).map (·.fullName)) =
        some twinsNames := by
    decide +kernel
  cases ht
  rw [hp] at names
  rw [Source.selected, Source.selection, hskipped]
  exact Option.some.inj names

/-- Both variables are selected and converted, and one entry is left. -/
theorem twins_share_entry :
    ∃ s table, (run twins twinsOptions).result = .ok twinsOutput ∧
      Completes twins twinsOptions twinsOutput s table ∧
      (s.selected twinsOptions).length = 2 ∧ table.length = 1 := by
  obtain ⟨s, table, hc⟩ := run_completes twins_result
  have names := twins_selected hc
  have keys := hc.holds.keys
  rw [names] at keys
  refine ⟨s, table, twins_result, hc, ?_, ?_⟩
  · simpa [twinsNames] using congrArg List.length names
  · have one : twinsNames.eraseDups.length = 1 := by decide
    rw [← one, ← keys, Table.keys, List.length_map]

end DocShape.Command
