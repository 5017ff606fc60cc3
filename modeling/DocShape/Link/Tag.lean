import DocShape.Link.Resolver
import DocShape.Text.Blank

/-!
# Inline link tags

A tag is written between braces, with the word `@link`, `@linkcode` or `@linkplain`, a target, and a
label that may follow a blank or a vertical bar.

* `Link.Tag.read?` reads the tag that a text starts with;
* `Link.replaceTags` replaces every tag by a link, or by a code span where the target is not known;
* `Link.commentText` is the text of a comment with its tags replaced.
-/

namespace DocShape.Link

structure Tag where
  target : Text
  label : Text
  deriving DecidableEq, Repr

namespace Tag

def isClose (c : CodePoint) : Bool := c.val == 0x7d

def isBar (c : CodePoint) : Bool := c.val == 0x7c

def isTargetPoint (c : CodePoint) : Bool := !(c.isBlank || isClose c || isBar c)

/-- The rest of a tag behind its opening word. -/
def opening? (s : Text) : Option Text := do
  let s ← Text.dropPrefix? "\x7b@link" s
  return (Text.dropPrefix? "code" s).getD ((Text.dropPrefix? "plain" s).getD s)

/-- The label in the text between target and closing brace: a bar at its start is a separator, and
blanks around it do not count. -/
def labelOf (body : Text) : Text :=
  match Text.trimStart body with
  | c :: rest => if isBar c then Text.trim rest else Text.trim (c :: rest)
  | [] => []

/-- The tag that a text starts with, and the text behind it. -/
def read? (s : Text) : Option (Tag × Text) := do
  let word ← opening? s
  let start := Text.trimStart word
  let target := start.takeWhile isTargetPoint
  let behind := start.dropWhile isTargetPoint
  match behind.dropWhile (!isClose ·) with
  | [] => none
  | _ :: rest =>
    if start.length < word.length ∧ target ≠ [] then
      return (⟨target, labelOf (behind.takeWhile (!isClose ·))⟩, rest)
    else none

private theorem length_dropPrefix?_le {start s rest : Text}
    (h : Text.dropPrefix? start s = some rest) : rest.length ≤ s.length := by
  unfold Text.dropPrefix? at h
  split at h <;> grind

private theorem length_opening?_le {s rest : Text} (h : opening? s = some rest) :
    rest.length ≤ s.length := by
  unfold opening? at h
  obtain ⟨behind, hb, heq⟩ := Option.bind_eq_some_iff.1 h
  have h₁ := length_dropPrefix?_le hb
  cases hc : Text.dropPrefix? "code" behind with
  | some r =>
    have := length_dropPrefix?_le hc
    grind
  | none =>
    cases hp : Text.dropPrefix? "plain" behind with
    | some r =>
      have := length_dropPrefix?_le hp
      grind
    | none => grind

theorem length_read? {s rest : Text} {tag : Tag} (h : read? s = some (tag, rest)) :
    rest.length < s.length := by
  unfold read? at h
  obtain ⟨word, hw, h⟩ := Option.bind_eq_some_iff.1 h
  have h₁ := length_opening?_le hw
  dsimp only at h
  split at h
  · simp at h
  · rename_i c tail hd
    split at h
    · rename_i hs
      have h₂ : (tail.length + 1) ≤ ((Text.trimStart word).dropWhile isTargetPoint).length := by
        have := (List.dropWhile_sublist (!isClose ·) (l := (Text.trimStart word).dropWhile
          isTargetPoint)).length_le
        rw [hd] at this
        exact this
      have h₃ := (List.dropWhile_sublist isTargetPoint (l := Text.trimStart word)).length_le
      simp only [pure, Option.some.injEq, Prod.mk.injEq] at h
      rw [← h.2]
      omega
    · simp at h

end Tag

/-! ## Scopes -/

/-- The full names that a target may mean inside a declaration: below each enclosing declaration that
has a name, the innermost first, and last the target as it stands. -/
def candidates (scope : Option Place) (target : Text) : List Text :=
  let outer : List Place := Place.enclosing ((scope.getD []).drop 1)
  let prefixes := (outer.map Place.fullName).filter (· ≠ [])
  prefixes.map (· ++ "." ++ target) ++ [target]

def Resolver.findTag (resolver : Resolver) (scope : Option Place) (target : Text) :
    Option Target :=
  (candidates scope target).findSome? resolver.lookup

/-- The declarations around are tried from the inside out, but for those without a full name, and last the
target itself. -/
theorem findTag_eq (resolver : Resolver) (scope : Option Place) (target : Text) :
    resolver.findTag scope target =
      ((Place.enclosing ((scope.getD []).drop 1)).findSome? fun around =>
        if around.fullName ≠ [] then resolver.lookup (around.fullName ++ "." ++ target) else none).or
        (resolver.lookup target) := by
  unfold Resolver.findTag candidates
  dsimp only
  rw [List.findSome?_append, List.findSome?_singleton]
  congr 1
  induction Place.enclosing ((scope.getD []).drop 1) with
  | nil => rfl
  | cons around rest ih =>
    rw [List.map_cons, List.findSome?_cons, ← ih]
    by_cases named : around.fullName = [] <;> simp [named, List.findSome?_cons]

/-! ## Replacing -/

/-- A tag as a link with its label or the title of the target, or as a code span with its label or
the target as it is written. -/
def renderTag (resolver : Resolver) (scope : Option Place) (tag : Tag) : Text :=
  match resolver.findTag scope tag.target with
  | some found =>
    "[" ++ (if tag.label.isEmpty then found.title else tag.label) ++ "](" ++ found.link ++ ")"
  | none => [0x60] ++ (if tag.label.isEmpty then tag.target else tag.label) ++ [0x60]

/-- A text with its tags replaced, as seen from inside the declaration at a place. -/
def replaceTags (resolver : Resolver) (scope : Option Place) (s : Text) : Text :=
  match s with
  | [] => []
  | c :: rest =>
    match _h : Tag.read? (c :: rest) with
    | some (tag, behind) => renderTag resolver scope tag ++ replaceTags resolver scope behind
    | none => c :: replaceTags resolver scope rest
termination_by s.length
decreasing_by
  · exact Tag.length_read? _h
  · simp

/-! ## Comments -/

/-- A trimmed text with its tags replaced; blank text is no text. -/
def plainText (resolver : Resolver) (scope : Option Place) (s : Text) : Option Text :=
  let trimmed := s.trim
  if trimmed.isEmpty then none else some (replaceTags resolver scope trimmed)

/-- The summary and the details of a comment as paragraphs, without the blank ones. -/
def paragraphs (comment : Comment) : Text :=
  Text.joinWith "\n\n" (([comment.summary, comment.details].map Text.trim).filter (· ≠ []))

/-- The text of a comment; a comment without text has none. -/
def commentText (resolver : Resolver) (scope : Option Place) (comment : Option Comment) :
    Option Text := do
  let comment ← comment
  let text := paragraphs comment
  if text.isEmpty then none else some (replaceTags resolver scope text)

end DocShape.Link
