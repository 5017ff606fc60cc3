import DocShape.Link.Target

/-!
# Resolving links

* `Link.Resolver.lookup` finds the target of a full name;
* `Link.Resolver.pageOf` is the page that a declaration stands on;
* `Link.Resolver.linkTo` is the link to a declaration as seen from another one: on the same page only
  the anchor remains.
-/

namespace DocShape.Link

structure Resolver where
  targets : Table Target

namespace Resolver

/-- The resolver that knows no target. -/
def none : Resolver := ⟨[]⟩

def lookup (resolver : Resolver) (fullName : Text) : Option Target :=
  Table.get? resolver.targets fullName

/-- The page of the innermost documented declaration around a place. -/
def pageOf (resolver : Resolver) (place : Place) : Option Text :=
  (place.enclosing.findSome? fun p => resolver.lookup p.fullName).map (·.page)

/-- The link to the declaration at a site, as seen from a place. -/
def linkTo (resolver : Resolver) (owner : Place) (target : Option Site) : Option Target := do
  let site ← target
  let found ← resolver.lookup site.fullName
  if resolver.pageOf owner = some found.page then
    return { found with link := "#" ++ Text.afterFirst 0x23 found.link }
  else return found

end Resolver

end DocShape.Link
