import DocShape.Config.Merge

/-!
# Settings

* `Config.defaults` is the configuration without any file;
* `Config.ofLoaded` lays the content of a configuration file over it.
-/

namespace DocShape.Config

open Json

def defaults : Members :=
  [("links", .object
      [("api_root", .text "/docs/extensions/reference"), ("strip_prefix", .text "chrome."),
        ("anchor_prefix", .text "type-")]),
    ("output", .object [("indent", .int 2)]),
    ("logging", .object [("level", .text "WARNING")]),
    ("skip", .array [])]

inductive LoadFault
  /-- The file does not hold a mapping. -/
  | notAMapping
  | merge (e : MergeFault)
  deriving DecidableEq, Repr

/-- The defaults with the content of a configuration file laid over them. Content that counts as
missing changes nothing. -/
def ofLoaded (content : Value) : Except LoadFault Members :=
  match content with
  | .object update => (mergeMembers defaults update).mapError .merge
  | v => if v.isEmpty then .ok defaults else .error .notAMapping

/-- What is said of the file at a path that does not hold a mapping. -/
def notAMappingMessage (path : Text) : Text := "Config file must contain a mapping: " ++ path

end DocShape.Config
