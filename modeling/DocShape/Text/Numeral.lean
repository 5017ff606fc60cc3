import DocShape.Text.Blank

/-!
# Decimal integers in text

`Text.toInt?` reads an integer written in the decimal digits of any script, with blanks around it,
a sign, and single underscores between digits.
-/

namespace DocShape

/-- The zeros of the runs of ten decimal digits of every script. -/
private def zeros : List Nat :=
  [
    0x30, 0x660, 0x6f0, 0x7c0, 0x966, 0x9e6, 0xa66, 0xae6, 0xb66, 0xbe6, 0xc66, 0xce6, 0xd66,
    0xde6, 0xe50, 0xed0, 0xf20, 0x1040, 0x1090, 0x17e0, 0x1810, 0x1946, 0x19d0, 0x1a80, 0x1a90,
    0x1b50, 0x1bb0, 0x1c40, 0x1c50, 0xa620, 0xa8d0, 0xa900, 0xa9d0, 0xa9f0, 0xaa50, 0xabf0,
    0xff10, 0x104a0, 0x10d30, 0x11066, 0x110f0, 0x11136, 0x111d0, 0x112f0, 0x11450, 0x114d0,
    0x11650, 0x116c0, 0x11730, 0x118e0, 0x11950, 0x11c50, 0x11d50, 0x11da0, 0x16a60, 0x16ac0,
    0x16b50, 0x1d7ce, 0x1d7d8, 0x1d7e2, 0x1d7ec, 0x1d7f6, 0x1e140, 0x1e2f0, 0x1e950, 0x1fbf0  ]

namespace CodePoint

/-- The value of a decimal digit of any script. -/
def decimalValue? (c : CodePoint) : Option Nat :=
  (zeros.find? fun z => z ≤ c.val && c.val < z + 10).map (c.val - ·)

/-- Blanks around a number; the information separators are not among them. -/
def isNumberBlank (c : CodePoint) : Bool := c.isBlank && !(0x1c ≤ c.val && c.val ≤ 0x1f)

end CodePoint

namespace Text

/-- The most digits that an integer may be written with. -/
def digitLimit : Nat := 4300

private def trimNumber (t : Text) : Text :=
  (((t.dropWhile CodePoint.isNumberBlank).reverse).dropWhile CodePoint.isNumberBlank).reverse

/-- Digits with single underscores between them; `separable` says whether an underscore may come
next. -/
private def digits? : Bool → Text → Option (List Nat)
  | separable, [] => if separable then some [] else none
  | separable, c :: rest =>
    if c.val = 0x5f then
      if separable then digits? false rest else none
    else
      match c.decimalValue? with
      | none => none
      | some d => (digits? true rest).map (d :: ·)

private def natural? (t : Text) : Option Nat :=
  match digits? false t with
  | none => none
  | some ds => if ds.length ≤ digitLimit then some (ds.foldl (fun n d => 10 * n + d) 0) else none

/-- Reads a decimal integer. -/
def toInt? (t : Text) : Option Int :=
  match trimNumber t with
  | [] => none
  | sign :: rest =>
    if sign.val = 0x2d then (natural? rest).map fun n => -(n : Int)
    else if sign.val = 0x2b then (natural? rest).map Int.ofNat
    else (natural? (sign :: rest)).map Int.ofNat

end Text

end DocShape
