import DocShape.Proofs.Command.Selection
import DocShape.Proofs.Config.Paths

/-!
What a run finds in its settings, whatever reads its configuration file. A loaded configuration has a path of
the defaults just where the file has nothing but objects on the way to it, and the options of the command line
keep these paths; so a run that misses a section blames one that the file has replaced (`loaded_settings`). A
file can do that (`links_replaced`).
-/

namespace DocShape.Command

open Config (CutsOff HasPath hasPath_cons not_hasPath_cons valueAt?)
open Json (Value Members member member?)

/-! ## Paths of the defaults -/

/-- The defaults have sections, and single values in them. -/
theorem not_hasPath_defaults (key key' key'' : Text) (path : List Text) :
    ¬ HasPath (.object Config.defaults) (key :: key' :: key'' :: path) := by
  intro h
  obtain ⟨v, hv, h⟩ := hasPath_cons.1 h
  have hv := Table.mem_of_get? hv
  simp only [Config.defaults, List.mem_cons, Prod.mk.injEq, List.not_mem_nil, or_false] at hv
  rcases hv with ⟨-, rfl⟩ | ⟨-, rfl⟩ | ⟨-, rfl⟩ | ⟨-, rfl⟩
  case inr.inr.inr =>
    have single : ∀ members, Value.array [] ≠ .object members := by rintro _ ⟨⟩
    exact not_hasPath_cons single h
  all_goals
    obtain ⟨w, hw, h⟩ := hasPath_cons.1 h
    have hw := Table.mem_of_get? hw
    simp only [List.mem_cons, Prod.mk.injEq, List.not_mem_nil, or_false] at hw
    have single : ∀ members, w ≠ .object members := by
      rintro members rfl
      simp at hw
    exact not_hasPath_cons single h

/-- Paths into sections are kept where objects are kept. -/
theorem KeepsObjects.path {config config' : Members} (keeps : KeepsObjects config config')
    {path : List Text} (default : HasPath (.object Config.defaults) path)
    (h : HasPath (.object config) path) : HasPath (.object config') path := by
  match path with
  | [] => exact h
  | key :: [] =>
    obtain ⟨v, hv, h⟩ := hasPath_cons.1 h
    rcases keeps key with same | ⟨_, new, -, hnew, -⟩
    · exact hasPath_cons.2 ⟨v, same.trans hv, h⟩
    · exact hasPath_cons.2 ⟨.object new, hnew, rfl⟩
  | key :: key' :: [] =>
    obtain ⟨v, hv, h⟩ := hasPath_cons.1 h
    rcases keeps key with same | ⟨old, new, hold, hnew, keys⟩
    · exact hasPath_cons.2 ⟨v, same.trans hv, h⟩
    · cases hv.symm.trans hold
      obtain ⟨w, hw, -⟩ := hasPath_cons.1 h
      obtain ⟨w', hw'⟩ := Option.isSome_iff_exists.1 (keys key' (Option.isSome_of_eq_some hw))
      exact hasPath_cons.2 ⟨.object new, hnew, hasPath_cons.2 ⟨w', hw', rfl⟩⟩
  | key :: key' :: key'' :: path => exact absurd default (not_hasPath_defaults key key' key'' path)

/-! ## Loaded configurations -/

/-- Where the content of a file is no object, it has no keys to cut a path off with. -/
theorem not_cutsOff_of_not_object {content : Value} (h : ∀ members, content ≠ .object members)
    (path : List Text) : ¬ CutsOff content path := by
  rintro ⟨way, rest, hway, -, -, w, hw, -⟩
  cases way with
  | nil => exact hway rfl
  | cons key way => exact not_hasPath_cons h (Option.isSome_of_eq_some hw)

theorem ofLoaded_path {content : Value} {config : Members} {path : List Text}
    (distinct : content.hasDistinctKeys) (h : Config.ofLoaded content = .ok config)
    (hp : HasPath (.object Config.defaults) path) :
    HasPath (.object config) path ↔ ¬ CutsOff content path := by
  unfold Config.ofLoaded at h
  split at h
  · exact Config.mergeMembers_path (mapError_eq_ok.1 h) distinct hp
  · rename_i other
    split_ifs at h
    cases h
    exact iff_of_true hp (not_cutsOff_of_not_object other path)

/-- What is loaded is a mapping, or counts as missing. -/
theorem ofLoaded_mapping {content : Value} {config : Members} (h : Config.ofLoaded content = .ok config) :
    (∃ members, content = .object members) ∨ content.isEmpty := by
  unfold Config.ofLoaded at h
  split at h
  · exact Or.inl ⟨_, rfl⟩
  · split_ifs at h with missing
    exact Or.inr missing

/-- A configuration that is loaded from a file is made from what a reader gives for its text. -/
theorem loadConfig_eq_ok {files : Files} {path : Text} (named : path ≠ [])
    {given : Except Yaml.Fault Value} (found : files.config (normalPath path) = some given)
    {config : Members} : loadConfig files (some path) = .ok config ↔
      ∃ content, given = .ok content ∧ Config.ofLoaded content = .ok config := by
  have named : path.isEmpty = false := List.isEmpty_eq_false_iff.2 named
  simp only [loadConfig, named, Bool.false_eq_true, if_false, found]
  rcases given with ⟨⟨⟩⟩ | content
  · simp
  · simp only [Except.ok.injEq, exists_eq_left']
    split
    · rename_i loaded
      rw [loaded]
      simp
    all_goals
      rename_i loaded
      simp [loaded]

/-! ## Runs -/

/-- A run that misses a section has loaded a configuration without it. -/
theorem run_misses_section {files : Files} {o : Options} {key : Text}
    (h : (run files o).result = .error (.settingNotAnObject key)) :
    ∃ config, loadConfig files o.config = .ok config ∧ key ∈ sectionKeys ∧
      ∀ section', member config key ≠ .object section' := by
  rcases run_eq_error h with (fair | ⟨config, hc, fair⟩) | ⟨_, _, _, ⟨⟩, -⟩
  · have found : member [(key, .object [])] key = .object [] := by simp [member, member?, Table.get?]
    exact absurd found ((fair _).2 [])
  · exact ⟨config, hc, fair⟩

/-- Every section is an object of the defaults, and has keys there. -/
private theorem section_hasPath : ∀ key ∈ sectionKeys, ∃ key',
    HasPath (.object Config.defaults) [key, key'] := by
  have links : HasPath (.object Config.defaults) ["links", "api_root"] := rfl
  have output : HasPath (.object Config.defaults) ["output", "indent"] := rfl
  have logging : HasPath (.object Config.defaults) ["logging", "level"] := rfl
  simp only [sectionKeys, List.forall_mem_cons]
  exact ⟨⟨_, links⟩, ⟨_, output⟩, ⟨_, logging⟩, nofun⟩

theorem not_hasPath_of_missing {config : Members} {key : Text}
    (missing : ∀ section', member config key ≠ .object section') (key' : Text) :
    ¬ HasPath (.object config) [key, key'] := by
  intro h
  obtain ⟨v, hv, h⟩ := hasPath_cons.1 h
  have single : ∀ members, v ≠ .object members := by
    rintro members rfl
    exact missing members (by rw [member, hv, Option.getD_some])
  exact not_hasPath_cons single h

/-- A configuration that is loaded from a file, which holds a mapping or nothing, has a path of the defaults
unless the file has something else than a mapping on the way to it. The command line keeps these paths, and
where a run with this file misses a section, the file has something else there. -/
theorem loaded_settings {read : ConfigReader} (keys : read.RepeatsNoKey) {files : Files} {path text : Text}
    (named : path ≠ []) (found : files.config (normalPath path) = some (read text)) {config : Members}
    (loaded : loadConfig files (some path) = .ok config) :
    ∃ content, read text = .ok content ∧ ((∃ members, content = .object members) ∨ content.isEmpty) ∧
      (∀ keyPath, HasPath (.object Config.defaults) keyPath →
        (HasPath (.object config) keyPath ↔ ¬ CutsOff content keyPath)) ∧
      ∀ o, o.config = some path →
        (∀ config' keyPath, settings files o = .ok config' →
          HasPath (.object Config.defaults) keyPath → HasPath (.object config) keyPath →
          HasPath (.object config') keyPath) ∧
        ∀ key, (run files o).result = .error (.settingNotAnObject key) →
          ∃ v, valueAt? content [key] = some v ∧ ∀ members, v ≠ .object members := by
  obtain ⟨content, hread, hload⟩ := (loadConfig_eq_ok named found).1 loaded
  have paths : ∀ keyPath, HasPath (.object Config.defaults) keyPath →
      (HasPath (.object config) keyPath ↔ ¬ CutsOff content keyPath) := fun _ =>
    ofLoaded_path (keys text content hread) hload
  refine ⟨content, hread, ofLoaded_mapping hload, paths, fun o ho =>
    ⟨fun config' keyPath hs default => ?_, fun key hrun => ?_⟩⟩
  · obtain ⟨config'', hl, keeps⟩ := settings_eq_ok hs
    rw [ho] at hl
    cases hl.symm.trans loaded
    exact keeps.path default
  · obtain ⟨config', hl, hkey, missing⟩ := run_misses_section hrun
    rw [ho] at hl
    cases hl.symm.trans loaded
    obtain ⟨key', default⟩ := section_hasPath key hkey
    have lost := not_hasPath_of_missing missing key'
    have cut : CutsOff content [key, key'] := not_not.1 (mt (paths _ default).2 lost)
    exact cut.first

/-! ## Two files -/

/-- A reader that knows what one text holds, and no other. -/
def readerOf (text : Text) (content : Value) : ConfigReader := fun t =>
  if t = text then .ok content else .error .malformed

theorem readerOf_self (text : Text) (content : Value) : readerOf text content text = .ok content :=
  if_pos rfl

theorem readerOf_repeatsNoKey {content : Value} (distinct : content.hasDistinctKeys) (text : Text) :
    (readerOf text content).RepeatsNoKey := by
  intro t v h
  unfold readerOf at h
  split_ifs at h
  cases h
  exact distinct

/-- A file with a mapping for the links and a number for the output. -/
def flatOutput : Text := "links:\n  api_root: /ref\noutput: 4\n"

def flatOutputContent : Value := .object [("links", .object [("api_root", .text "/ref")]), ("output", .int 4)]

/-- What the file makes of the defaults. -/
def flatOutputConfig : Members :=
  [("links", .object
      [("api_root", .text "/ref"), ("strip_prefix", .text "chrome."), ("anchor_prefix", .text "type-")]),
    ("output", .int 4),
    ("logging", .object [("level", .text "WARNING")]),
    ("skip", .array [])]

def flatOutputFiles : Files :=
  ⟨fun _ => some "\x7b\x7d", fun _ => some (readerOf flatOutput flatOutputContent flatOutput)⟩

def flatOutputOptions : Options := { document := "api.json", config := some "settings.yaml" }

/-- The file adds to the links, and cuts the indentation of the output off, so that the run fails there. -/
theorem loaded_settings_flatOutput :
    loadConfig flatOutputFiles (some "settings.yaml") = .ok flatOutputConfig ∧
      HasPath (.object flatOutputConfig) ["links", "strip_prefix"] ∧
      CutsOff flatOutputContent ["output", "indent"] ∧
      (run flatOutputFiles flatOutputOptions).result = .error (.settingNotAnObject "output") ∧
      ∃ v, valueAt? flatOutputContent ["output"] = some v ∧ ∀ members, v ≠ .object members := by
  have loaded : loadConfig flatOutputFiles (some "settings.yaml") = .ok flatOutputConfig := by rfl
  obtain ⟨content, hread, -, paths, runs⟩ := loaded_settings
    (readerOf_repeatsNoKey (by decide) flatOutput) (by decide) rfl loaded
  cases hread.symm.trans (readerOf_self flatOutput flatOutputContent)
  have kept : HasPath (.object flatOutputConfig) ["links", "strip_prefix"] := rfl
  have lost : ¬ HasPath (.object flatOutputConfig) ["output", "indent"] := by decide
  have fails : (run flatOutputFiles flatOutputOptions).result = .error (.settingNotAnObject "output") :=
    eq_error_of_failure? (by decide +kernel)
  exact ⟨loaded, kept, not_not.1 ((paths ["output", "indent"] rfl).not.1 lost), fails,
    (runs flatOutputOptions rfl).2 "output" fails⟩

/-- A file that sets the links to nothing. -/
def unlinked : Text := "links: null\n"

def unlinkedContent : Value := .object [("links", .null)]

def unlinkedFiles : Files :=
  ⟨fun _ => some "\x7b\x7d", fun _ => some (readerOf unlinked unlinkedContent unlinked)⟩

/-- The run that puts a root of the command line over that file. -/
def unlinkedOptions : Options :=
  { document := "api.json", config := some "settings.yaml", apiRoot := some "/ref" }

/-- The file is a mapping and is loaded, but the links of the defaults are lost, and the run fails. -/
theorem links_replaced : ∃ members config, readerOf unlinked unlinkedContent unlinked = .ok (.object members) ∧
    loadConfig unlinkedFiles unlinkedOptions.config = .ok config ∧
    HasPath (.object Config.defaults) ["links", "api_root"] ∧
    ¬ HasPath (.object config) ["links", "api_root"] ∧
    (run unlinkedFiles unlinkedOptions).result = .error (.settingNotAnObject "links") := by
  have fails : (run unlinkedFiles unlinkedOptions).result = .error (.settingNotAnObject "links") :=
    eq_error_of_failure? (by decide +kernel)
  refine ⟨[("links", .null)], Table.put Config.defaults "links" .null, readerOf_self _ _, rfl, rfl, ?_, fails⟩
  decide

end DocShape.Command
