import DocShape.Declaration.Graph
import DocShape.Json.Display
import DocShape.Link.Page

/-!
# Link targets

* `Link.Style` says how links are written, and `Link.Style.ofValues` reads one from settings;
* `Link.targets` has the title, link and page of every documented declaration under its full name.
-/

namespace DocShape.Link

open Json

/-- How links are written: the root of all pages, the prefix that titles and pages go without, and
what stands before the name of a declaration in an anchor. -/
structure Style where
  apiRoot : Text
  stripPrefix : Text
  anchorPrefix : Text
  deriving DecidableEq, Repr

inductive StyleFault
  | prefixNotText
  | rootNotText
  deriving DecidableEq, Repr

/-- Reads a style from settings. A prefix that counts as missing strips nothing, and any value can
stand in an anchor. -/
def Style.ofValues (apiRoot stripPrefix anchorPrefix : Value) : Except StyleFault Style := do
  let stripPrefix ←
    match stripPrefix with
    | .text t => pure t
    | v => if v.isEmpty then pure [] else throw .prefixNotText
  match apiRoot with
  | .text apiRoot => return { apiRoot, stripPrefix, anchorPrefix := anchorPrefix.display }
  | _ => throw .rootNotText

/-- Where a declaration is documented. -/
structure Target where
  title : Text
  link : Text
  page : Text
  deriving DecidableEq, Repr

namespace Style

/-- The page of a full name belongs to the namespace before its last point. -/
def page (style : Style) (fullName : Text) : Text :=
  pagePath style.apiRoot style.stripPrefix (Text.beforeLast 0x2e fullName)

def target (style : Style) (d : Declaration) : Target :=
  let page := style.page d.fullName
  { title := Text.dropPrefix style.stripPrefix d.fullName
    link := page ++ "#" ++ style.anchorPrefix ++ d.name
    page }

end Style

/-- The targets of some declarations; of several with one name the last counts, in the place of the
first. -/
def targets (style : Style) (documented : List Declaration) : Table Target :=
  Table.ofList (documented.map fun d => (d.fullName, style.target d))

end DocShape.Link
