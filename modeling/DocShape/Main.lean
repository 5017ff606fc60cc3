import DocShape.Command.Host

/-!
# The program

Executes a command line on the files of the system, with `Yaml.read` for configurations. The exit code is 0
after success, 1 after a failure and 2 after a command line that cannot be read.
-/

namespace DocShape.Command

def usage : String :=
  "usage: docshape [-h] [--config CONFIG] [--api-root API_ROOT] [--strip-prefix STRIP_PREFIX] " ++
    "[--only NAME [NAME ...]] [--verbose] typedoc_json [out_file]"

/-- What is wrong, for the failures that the program itself says nothing about. -/
def cause : Failure → String
  | .configMalformed => "The configuration file cannot be read."
  | .configMerge _ => "The configuration file does not fit the default settings."
  | .settingNotAnObject key => "The setting '" ++ key.toString ++ "' has to be an object."
  | .unknownLevel => "The log level is unknown."
  | .documentText _ => "The document is no JSON text."
  | .document _ => "The document does not have the form of a project."
  | .style _ => "A link setting has to be a text."
  | .skipNotListable => "The setting 'skip' has to be a list of names."
  | .output .integerTooLong => "An integer is too long to be written."
  | .output _ => "The setting 'indent' is neither a text nor a number of spaces."
  | _ => "The run has failed."

/-- The bytes of a file, if there is one. -/
def readBytes? (path : Text) : IO (Option ByteArray) := do
  try return some (← IO.FS.readBinFile path.toString)
  catch _ => return none

def appendBytes (path : Text) (bytes : ByteArray) : IO Unit := do
  let file ← IO.FS.Handle.mk path.toString .append
  file.write bytes

instance : Host IO where
  bytes? l := readBytes? l.text
  makeDirectory l := IO.FS.createDirAll l.text.toString
  clear l := IO.FS.writeBinFile l.text.toString ByteArray.empty
  append l bytes := appendBytes l.text bytes
  report r := IO.eprintln r.line.toString

end DocShape.Command

open DocShape DocShape.Command

def main (args : List String) : IO UInt32 := do
  match Options.ofWords (args.map Text.ofString) with
  | .error .helpWanted =>
    IO.println usage
    return 0
  | .error .misused =>
    IO.eprintln usage
    return 2
  | .ok options =>
    match ← execute Yaml.read options with
    | .printed text =>
      IO.print text.toString
      return 0
    | .written => return 0
    | .unencodable =>
      IO.eprintln "The text cannot be written in UTF-8."
      return 1
    | .failed failure =>
      match failure.message? with
      | some message => IO.eprintln message.toString
      | none => IO.eprintln (cause failure)
      return 1
