import DocShape.Command.Log
import DocShape.Command.Options
import DocShape.Command.Path
import DocShape.Config.Settings
import DocShape.Conversion.Converter
import DocShape.Yaml.Block

/-!
# A run of the program

* `Command.run` reads a document and a configuration, converts the selected declarations, and ends in
  what is to be printed or written, or in a failure;
* `Command.Selection` says which documented declarations are converted;
* `Command.job` logs everything, and the run shows the records from its level on.

Everything that is written is known before anything is written. What a configuration file holds is for the
surroundings to say: a run takes any `Command.ConfigReader`.
-/

namespace DocShape.Command

open Json (Value Members member)

/-! ## Failures -/

/-- Why a run fails. -/
inductive Failure
  | documentNotFound (path : Text)
  | configNotFound (path : Text)
  | configMalformed
  | configNotAMapping (path : Text)
  | configMerge (e : Config.MergeFault)
  /-- A setting has to be an object and is none. -/
  | settingNotAnObject (key : Text)
  | unknownLevel
  | documentText (e : Json.ReadError)
  | document (e : Document.Fault)
  | style (e : Link.StyleFault)
  /-- The names to skip cannot be listed. -/
  | skipNotListable
  | malformedDeclaration (fullName : Text) (v : Violation)
  | output (e : Json.WriteError)
  deriving DecidableEq, Repr

namespace Failure

/-- What is said about a failure, where the program says something. -/
def message? : Failure → Option Text
  | documentNotFound path => some ("TypeDoc JSON not found: " ++ path)
  | configNotFound path => some ("Config file not found: " ++ path)
  | configNotAMapping path => some (Config.notAMappingMessage path)
  | malformedDeclaration fullName v =>
    some ("Malformed declaration " ++ fullName ++ ": " ++ v.message)
  | _ => none

end Failure

/-! ## Surroundings -/

/-- What reads the text of a configuration file. A mapping is given by its members under texts, as settings are
looked up by nothing else, and a scalar that JSON has no kind for, such as a date, by a float, as no setting
takes either of them. -/
abbrev ConfigReader := Text → Except Yaml.Fault Value

/-- What is relied on of a reader: no mapping that it gives repeats a key. -/
def ConfigReader.RepeatsNoKey (read : ConfigReader) : Prop :=
  ∀ text content, read text = .ok content → content.hasDistinctKeys

/-- The files that a run may read, by their normal paths: the text of a document, and what a reader makes of
a configuration. -/
structure Files where
  document : Text → Option Text
  config : Text → Option (Except Yaml.Fault Value)

/-- Part of a run notes what is logged, whether it will be shown or not. -/
abbrev Job (α : Type) := Journal Log.Record Failure α

def log (r : Log.Record) : Job Unit := Journal.note r

/-! ## Settings -/

/-- The content of the configuration file over the defaults; an empty path is none. -/
def loadConfig (files : Files) (path : Option Text) : Except Failure Members :=
  match path with
  | none => .ok Config.defaults
  | some path =>
    if path.isEmpty then .ok Config.defaults
    else
      match files.config (normalPath path) with
      | none => .error (.configNotFound path)
      | some (.error .malformed) => .error .configMalformed
      | some (.ok content) =>
        match Config.ofLoaded content with
        | .ok config => .ok config
        | .error .notAMapping => .error (.configNotAMapping path)
        | .error (.merge e) => .error (.configMerge e)

/-- A section of the settings, which has to be an object. -/
def section? (config : Members) (key : Text) : Except Failure Members :=
  match member config key with
  | .object members => .ok members
  | _ => .error (.settingNotAnObject key)

/-- Puts an option of the command line over a link setting. -/
def overrideLink (config : Members) (key : Text) (value : Option Text) : Except Failure Members :=
  match value with
  | none => .ok config
  | some v => do
    let links ← section? config "links"
    return Table.put config "links" (.object (Table.put links key (.text v)))

/-- The settings of a run. -/
def settings (files : Files) (o : Options) : Except Failure Members := do
  let config ← loadConfig files o.config
  let config ← overrideLink config "api_root" o.apiRoot
  overrideLink config "strip_prefix" o.stripPrefix

def threshold (config : Members) (verbose : Bool) : Except Failure Log.Level :=
  if verbose then .ok .debug
  else do
    let logging ← section? config "logging"
    match Log.Level.ofName? (member logging "level").display with
    | some level => return level
    | none => throw .unknownLevel

/-! ## Selection -/

/-- Which full names are converted: all but the skipped ones, and of these, where names are given,
those alone. -/
structure Selection where
  skipped : List Text
  only : List Text

namespace Selection

/-- Whether a value can be an entry of a set; lists and objects cannot. -/
private def isEntry : Value → Bool
  | .array _ | .object _ => false
  | _ => true

private def text? : Value → Option Text
  | .text t => some t
  | _ => none

/-- Reads the names to skip. A text lists its code points, an object its keys; entries that are no
text skip nothing. -/
def readSkipped (v : Value) : Except Failure (List Text) :=
  match v.elementsOrNone? with
  | none => .error .skipNotListable
  | some entries =>
    if entries.all isEntry then .ok (entries.filterMap text?) else .error .skipNotListable

def selects (s : Selection) (fullName : Text) : Bool :=
  !s.skipped.contains fullName && (s.only.isEmpty || s.only.contains fullName)

end Selection

/-! ## Conversion -/

/-- The targets of a project in the style that the settings give. The style does not matter where
nothing is documented. -/
def linkTargets (config : Members) (project : Project) : Except Failure (Table Link.Target) := do
  let links ← section? config "links"
  if project.documented.isEmpty then return []
  else
    let style ← (Link.Style.ofValues (member links "api_root") (member links "strip_prefix")
      (member links "anchor_prefix")).mapError .style
    return Link.targets style project.documented

/-- Converts a declaration, and logs the warnings. -/
def convertLogged (resolver : Link.Resolver) (d : Declaration) : Job Shape :=
  let conversion := convert resolver d
  ⟨conversion.warnings.map Log.warning,
    conversion.outcome.mapError (.malformedDeclaration d.fullName)⟩

/-- Converts the selected declarations, in order, onto a table. -/
def convertAll (resolver : Link.Resolver) (selection : Selection) (table : Table Shape) :
    List Declaration → Job (Table Shape)
  | [] => return table
  | d :: rest =>
    if selection.selects d.fullName then do
      let shape ← convertLogged resolver d
      convertAll resolver selection (Table.put table d.fullName shape) rest
    else do
      log ⟨.debug, .run, "Skipping " ++ d.fullName⟩
      convertAll resolver selection table rest

/-- The converted declarations as one object. -/
def tableJson (table : Table Shape) : Value :=
  .object (table.map fun (name, shape) => (name, shape.toJson))

/-- The text of the converted declarations, indented as the settings say. -/
def outputText (config : Members) (table : Table Shape) : Except Failure Text := do
  let output ← section? config "output"
  (Json.outputTextWith (member output "indent") (tableJson table)).mapError .output

/-- What a run leaves: text for standard output, or a path with the text to write there. -/
inductive Product
  | printed (text : Text)
  | written (path text : Text)
  deriving DecidableEq, Repr

/-- Loads the document whose text is given. -/
def loadDocument (text : Text) : Except Failure Project := do
  let v ← (Json.read text).mapError .documentText
  (Project.ofValue v).mapError .document

/-- The text of the document, the settings, and the least level that is logged. -/
def prepare (files : Files) (o : Options) : Except Failure (Text × Members × Log.Level) := do
  let path := normalPath o.document
  let text ← (files.document path).elim (.error (.documentNotFound path)) .ok
  let config ← settings files o
  let level ← threshold config o.verbose
  return (text, config, level)

/-- Converts a document whose text has been read. -/
def job (o : Options) (text : Text) (config : Members) : Job Product := do
  let project ← loadDocument text
  log (Log.loaded project)
  let targets ← linkTargets config project
  log ⟨.info, .run, "Indexed " ++ Text.decimal targets.length ++ " documented declarations"⟩
  let skipped ← Selection.readSkipped (member config "skip")
  let table ← convertAll ⟨targets⟩ ⟨skipped, o.only.getD []⟩ [] project.documented
  let text ← outputText config table
  match o.output with
  | none => return .printed (text ++ "\n")
  | some path =>
    let path := normalPath path
    log ⟨.info, .run, "Wrote " ++ Text.decimal table.length ++ " render types to " ++ path⟩
    return .written path (text ++ "\n")

/-- How a run ends, and the records that it shows. -/
structure Outcome where
  result : Except Failure Product
  records : List Log.Record

def run (files : Files) (o : Options) : Outcome :=
  match prepare files o with
  | .error e => ⟨.error e, []⟩
  | .ok (text, config, level) =>
    let done := job o text config
    ⟨done.outcome, done.notes.filter (·.shownAt level)⟩

end DocShape.Command
