import DocShape.Command.Run
import DocShape.Text.Utf8

/-!
# The program and its surroundings

* `Command.Host` is what the program asks of the system that it runs on;
* `Command.execute` reads the files that the options name, a configuration with the reader that it is given,
  runs, and writes what the run leaves.

A file is emptied before its text is put into bytes, so a text that has no bytes would be found too
late.
-/

namespace DocShape.Command

class Host (m : Type → Type) where
  /-- The bytes of a file, if there is one. -/
  bytes? : Location → m (Option ByteArray)
  /-- Makes a directory where there is none. -/
  makeDirectory : Location → m Unit
  /-- Empties a file, or makes an empty one. -/
  clear : Location → m Unit
  /-- Writes behind what a file holds. -/
  append : Location → ByteArray → m Unit
  report : Log.Record → m Unit

/-- The files of a run by their bytes. Bytes that are not UTF-8 are no JSON text, as the empty text is
none. -/
def Files.ofBytes (read : ConfigReader) (document config : Option ByteArray) : Files where
  document _ := document.map fun bytes => (Text.decode? bytes).getD []
  config _ := config.map fun bytes =>
    match Text.decode? bytes with
    | some text => read text
    | none => .error .malformed

/-- How an execution ends. -/
inductive Ending
  | failed (f : Failure)
  | printed (text : Text)
  | written
  /-- The text to be written has no bytes. -/
  | unencodable
  deriving DecidableEq, Repr

variable {m : Type → Type} [Monad m] [Host m]

def readFiles (read : ConfigReader) (o : Options) : m Files := do
  let document ← Host.bytes? (Location.ofPath o.document)
  let config ←
    match o.config with
    | some path => Host.bytes? (Location.ofPath path)
    | none => pure none
  return Files.ofBytes read document config

/-- Makes the directories of a path, the outermost first. -/
def makeDirectories (root : Text) : List Text → m Unit
  | [] => pure ()
  | name :: names => do
    makeDirectories root names
    Host.makeDirectory ⟨root, name :: names⟩

/-- Writes a text into a file, which is emptied first. -/
def writeFile (l : Location) (text : Text) : m Ending := do
  makeDirectories l.root l.names.tail
  Host.clear l
  match text.encode? with
  | none => return .unencodable
  | some bytes => do
    Host.append l bytes
    return .written

/-- Writes what a run leaves. -/
def conclude : Except Failure Product → m Ending
  | .error f => return .failed f
  | .ok (.printed text) => return .printed text
  | .ok (.written path text) => writeFile (Location.ofPath path) text

def reportAll : List Log.Record → m Unit
  | [] => pure ()
  | r :: rest => do
    Host.report r
    reportAll rest

def execute (read : ConfigReader) (o : Options) : m Ending := do
  let files ← readFiles read o
  let outcome := run files o
  reportAll outcome.records
  conclude outcome.result

end DocShape.Command
