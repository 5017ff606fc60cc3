import DocShape.Number.Layout
import DocShape.Text.Quoted
import DocShape.Json.Value

/-!
# Values inside text

`Json.Value.display` is the text that stands for a value in names and messages: text stands for
itself, and every other value is spelled out with quoted text inside.
-/

namespace DocShape.Json

/-- Numbers that are not finite are spelled in lower case. -/
def displayLayout : FloatLayout := { infinity := "inf", nan := "nan" }

namespace Value

mutual

/-- A value spelled out. -/
def spelled : Value → Text
  | .null => "None"
  | .bool b => if b then "True" else "False"
  | .int n => Text.ofInt n
  | .float x => x.write displayLayout
  | .text t => t.quoted
  | .array items => "[" ++ Text.joinWith ", " (spelledItems items) ++ "]"
  | .object members => "\x7b" ++ Text.joinWith ", " (spelledMembers members) ++ "\x7d"

def spelledItems : List Value → List Text
  | [] => []
  | item :: rest => spelled item :: spelledItems rest

def spelledMembers : List (Text × Value) → List Text
  | [] => []
  | (key, v) :: rest => (key.quoted ++ ": " ++ spelled v) :: spelledMembers rest

end

/-- The text of a value. -/
def display : Value → Text
  | .text t => t
  | v => v.spelled

/-- The text of a value, empty where the value counts as missing. -/
def displayOrEmpty (v : Value) : Text := if v.isEmpty then [] else v.display

end Value

end DocShape.Json
