import DocShape.Text.Basic

/-!
# Blank code points

The white space of the Unicode standard together with the four ASCII information separators, and
trimming by it.
-/

namespace DocShape

/-- White space: the ASCII blanks and separators, the next-line control, and every space and line or
paragraph separator of the standard. The zero-width space and the byte order mark are not blank. -/
def CodePoint.isBlank (c : CodePoint) : Bool :=
  (0x09 ≤ c.val && c.val ≤ 0x0d) || (0x1c ≤ c.val && c.val ≤ 0x20) || c.val == 0x85 ||
    c.val == 0xa0 || c.val == 0x1680 || (0x2000 ≤ c.val && c.val ≤ 0x200a) || c.val == 0x2028 ||
    c.val == 0x2029 || c.val == 0x202f || c.val == 0x205f || c.val == 0x3000

namespace Text

def trimStart (t : Text) : Text := t.dropWhile CodePoint.isBlank

def trimEnd (t : Text) : Text := (t.reverse.dropWhile CodePoint.isBlank).reverse

/-- The text without the blanks at its two ends. -/
def trim (t : Text) : Text := trimEnd (trimStart t)

/-- What is dropped does not begin the rest. -/
theorem head?_dropWhile (p : CodePoint → Bool) (t : Text) :
    ∀ c ∈ (t.dropWhile p).head?, p c = false := by
  intro c hc
  have := List.head?_dropWhile_not p t
  rwa [hc] at this

end Text

end DocShape
