import DocShape.Conversion.Basic
import DocShape.Document.Project

/-!
# Log records

* `Log.Record.line` is a record as it is printed;
* `Log.Level.ofName?` reads the name of a level, `Log.Record.shownAt` says whether a record passes one.
-/

namespace DocShape.Log

inductive Level
  | notSet
  | debug
  | info
  | warning
  | error
  | critical
  deriving DecidableEq, Repr

namespace Level

/-- The names of the levels, two of which have two names. -/
def nameTable : List (Text × Level) :=
  [("CRITICAL", .critical), ("FATAL", .critical), ("ERROR", .error), ("WARN", .warning),
    ("WARNING", .warning), ("INFO", .info), ("DEBUG", .debug), ("NOTSET", .notSet)]

/-- The level of a name in any case. -/
def ofName? (name : Text) : Option Level := nameTable.lookup name.upperAscii

def rank : Level → Nat
  | notSet => 0
  | debug => 10
  | info => 20
  | warning => 30
  | error => 40
  | critical => 50

def text : Level → Text
  | notSet => "NOTSET"
  | debug => "DEBUG"
  | info => "INFO"
  | warning => "WARNING"
  | error => "ERROR"
  | critical => "CRITICAL"

end Level

/-- The part of the program that a record comes from. -/
inductive Source
  | loading
  | conversion
  | run
  deriving DecidableEq, Repr

def Source.text : Source → Text
  | loading => "render_types.load_typedoc_project"
  | conversion => "render_types.render_type_converter"
  | run => "render_types.run_conversion"

structure Record where
  level : Level
  source : Source
  message : Text
  deriving DecidableEq, Repr

namespace Record

def line (r : Record) : Text := r.level.text ++ " " ++ r.source.text ++ ": " ++ r.message

def shownAt (threshold : Level) (r : Record) : Bool := threshold.rank ≤ r.level.rank

end Record

/-- A project has been loaded. -/
def loaded (project : Project) : Record :=
  ⟨.debug, .loading, "loaded " ++ Text.decimal project.count ++ " declarations"⟩

def warning (w : Warning) : Record := ⟨.warning, .conversion, w.message⟩

end DocShape.Log
