import DocShape.Text.Basic

/-!
# Pages

Each namespace has a page. `Link.pagePath` is its path: the namespace, without the prefix that is
stripped, as a slug below the root of the documentation. `isSlugPoint_of_mem_slug` says what slugs
consist of.
-/

namespace DocShape.Link

/-- What stands in a slug as it is: ASCII letters and digits, the underscore and the hyphen. -/
def isSlugPoint (c : CodePoint) : Bool :=
  c.isAsciiLetter || c.isDigit || c.val == 0x5f || c.val == 0x2d

/-- Each run of other code points becomes one hyphen; `inRun` says whether such a run is open. -/
def hyphenate (inRun : Bool) : Text → Text
  | [] => []
  | c :: rest =>
    if isSlugPoint c then c :: hyphenate false rest
    else if inRun then hyphenate true rest
    else 0x2d :: hyphenate true rest

/-- The slug of a name: points become underscores, and no hyphen stays at the ends. -/
def slug (name : Text) : Text :=
  Text.trimMark 0x2d (hyphenate false (name.map fun c => if c.val = 0x2e then 0x5f else c))

/-- The path of the page of a namespace. -/
def pagePath (apiRoot stripPrefix space : Text) : Text :=
  let root := Text.dropTrailing 0x2f apiRoot
  let slug := slug (Text.dropPrefix stripPrefix space)
  if slug.isEmpty then root ++ "/" else root ++ "/" ++ slug ++ "/"

/-! ## Slugs -/

theorem isSlugPoint_of_mem_hyphenate {c : CodePoint} {t : Text} :
    ∀ {inRun : Bool}, c ∈ hyphenate inRun t → isSlugPoint c := by
  induction t with
  | nil => exact nofun
  | cons d rest ih =>
    intro inRun h
    unfold hyphenate at h
    split at h
    · rename_i hd
      rcases List.mem_cons.1 h with rfl | h
      · exact hd
      · exact ih h
    · split at h
      · exact ih h
      · rcases List.mem_cons.1 h with rfl | h
        · decide
        · exact ih h

theorem isSlugPoint_of_mem_slug {c : CodePoint} {name : Text} (h : c ∈ slug name) :
    isSlugPoint c := by
  apply isSlugPoint_of_mem_hyphenate
  unfold slug Text.trimMark Text.dropTrailing at h
  have kept := (List.dropWhile_sublist _).subset (List.mem_reverse.1 h)
  exact (List.dropWhile_sublist _).subset (List.mem_reverse.1 kept)

end DocShape.Link
