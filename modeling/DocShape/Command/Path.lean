import DocShape.Text.Basic

/-!
# File paths

`Command.normalPath` is the form in which paths are shown: without repeated and trailing slashes, and
without single points. A path that starts with exactly two slashes keeps both. `Command.Location` is a
path in parts.
-/

namespace DocShape.Command

private def slash : CodePoint := 0x2f

/-- The parts between slashes. -/
def pathParts : Text → List Text
  | [] => [[]]
  | c :: rest =>
    if c = slash then [] :: pathParts rest
    else
      match pathParts rest with
      | [] => [[c]]
      | part :: others => (c :: part) :: others

/-- The slashes that a path keeps at its start. -/
def pathRoot (t : Text) : Text :=
  match (t.takeWhile (· == slash)).length with
  | 0 => []
  | 2 => "//"
  | _ => "/"

/-- A part that leads nowhere: nothing, or a single point. -/
def isIdlePart (part : Text) : Bool := part == [] || part == Text.ofString "."

def normalPath (t : Text) : Text :=
  let parts := (pathParts t).filter (!isIdlePart ·)
  let path := pathRoot t ++ Text.joinWith (Text.ofString "/") parts
  if path = [] then Text.ofString "." else path

/-- A path in its parts, the innermost name first. -/
structure Location where
  root : Text
  names : List Text
  deriving DecidableEq, Repr

namespace Location

def ofPath (t : Text) : Location :=
  ⟨pathRoot t, ((pathParts t).filter (!isIdlePart ·)).reverse⟩

def text (l : Location) : Text :=
  let path := l.root ++ Text.joinWith (Text.ofString "/") l.names.reverse
  if path = [] then Text.ofString "." else path

end Location

end DocShape.Command
