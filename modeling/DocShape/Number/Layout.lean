import DocShape.Number.Shortest

/-!
# Written form of floating-point numbers

`FloatLayout` gathers the decisions of a written form, and `Binary64.write` follows one;
`Binary64.mem_write` says which code points may be written, and `Binary64.exists_mem_write` that they are
not those of an integer alone.
-/

namespace DocShape

/-- How a floating-point number is written. -/
structure FloatLayout where
  /-- Numbers from this decimal exponent on are written with a point and no exponent … -/
  positionalFrom : Int := -4
  /-- … up to, but without, this one. -/
  positionalBelow : Int := 16
  /-- The least number of digits of an exponent. -/
  exponentWidth : Nat := 2
  infinity : Text
  nan : Text

namespace Binary64

private def zeros (n : Nat) : Text := List.replicate n 0x30

/-- Digits with a decimal point; a whole number keeps one zero after the point. -/
private def positional (digits : Text) (point : Int) : Text :=
  if point ≤ 0 then "0." ++ zeros (-point).toNat ++ digits
  else if (digits.length : Int) ≤ point then
    digits ++ zeros (point - digits.length).toNat ++ ".0"
  else digits.take point.toNat ++ "." ++ digits.drop point.toNat

/-- One digit before the point and the power of ten with its sign. -/
private def scientific (width : Nat) (digits : Text) (exponent : Int) : Text :=
  let power := Text.decimal exponent.natAbs
  let mantissa := if digits.length ≤ 1 then digits else digits.take 1 ++ "." ++ digits.drop 1
  mantissa ++ (if exponent < 0 then "e-" else "e+") ++ zeros (width - power.length) ++ power

private def writeMagnitude (layout : FloatLayout) (m : Nat) (e : Int) : Text :=
  if m = 0 then "0.0"
  else
    let d := shortest m e
    let digits := Text.decimal d.digits
    let point := (digits.length : Int) + d.exponent
    if layout.positionalFrom < point ∧ point ≤ layout.positionalBelow then positional digits point
    else scientific layout.exponentWidth digits (point - 1)

/-- The text of a number in a given layout. -/
def write (layout : FloatLayout) : Binary64 → Text
  | .finite negative m e =>
    let text := writeMagnitude layout m e
    if negative then "-" ++ text else text
  | .infinite negative => if negative then "-" ++ layout.infinity else layout.infinity
  | .nan => layout.nan

/-! ## What is written -/

/-- What numbers are written with: digits, signs, the point and the letter e. -/
def isNumberPoint (c : CodePoint) : Bool :=
  c.isDigit || c == 0x2b || c == 0x2d || c == 0x2e || c == 0x65

private theorem isNumberPoint_of_all {t : Text} (h : t.all isNumberPoint = true) :
    ∀ c ∈ t, isNumberPoint c := List.all_eq_true.1 h

private theorem isNumberPoint_decimal (n : Nat) : ∀ c ∈ Text.decimal n, isNumberPoint c := by
  intro c h
  simp [isNumberPoint, Text.isDigit_of_mem_decimal h]

private theorem isNumberPoint_zeros (n : Nat) : ∀ c ∈ zeros n, isNumberPoint c := by
  intro c h
  rw [(List.mem_replicate.1 h).2]
  rfl

private theorem isNumberPoint_positional {digits : Text} (point : Int)
    (h : ∀ c ∈ digits, isNumberPoint c) : ∀ c ∈ positional digits point, isNumberPoint c := by
  have hz := isNumberPoint_zeros
  unfold positional
  split
  · simp only [List.forall_mem_append]
    exact ⟨⟨isNumberPoint_of_all rfl, hz _⟩, h⟩
  · split
    · simp only [List.forall_mem_append]
      exact ⟨⟨h, hz _⟩, isNumberPoint_of_all rfl⟩
    · simp only [List.forall_mem_append]
      exact ⟨⟨fun c hc => h c (List.mem_of_mem_take hc), isNumberPoint_of_all rfl⟩,
        fun c hc => h c (List.mem_of_mem_drop hc)⟩

private theorem isNumberPoint_scientific (width : Nat) {digits : Text} (exponent : Int)
    (h : ∀ c ∈ digits, isNumberPoint c) :
    ∀ c ∈ scientific width digits exponent, isNumberPoint c := by
  have hm : ∀ c ∈ (if digits.length ≤ 1 then digits
      else digits.take 1 ++ "." ++ digits.drop 1), isNumberPoint c := by
    split
    · exact h
    · simp only [List.forall_mem_append]
      exact ⟨⟨fun c hc => h c (List.mem_of_mem_take hc), isNumberPoint_of_all rfl⟩,
        fun c hc => h c (List.mem_of_mem_drop hc)⟩
  have he : ∀ c ∈ Text.ofString (if exponent < 0 then "e-" else "e+"), isNumberPoint c := by
    split
    · exact isNumberPoint_of_all rfl
    · exact isNumberPoint_of_all rfl
  unfold scientific
  simp only [List.forall_mem_append]
  exact ⟨⟨⟨hm, he⟩, isNumberPoint_zeros _⟩, isNumberPoint_decimal _⟩

private theorem isNumberPoint_writeMagnitude (layout : FloatLayout) (m : Nat) (e : Int) :
    ∀ c ∈ writeMagnitude layout m e, isNumberPoint c := by
  unfold writeMagnitude
  dsimp only
  split
  · exact isNumberPoint_of_all rfl
  · split
    · exact isNumberPoint_positional _ (isNumberPoint_decimal _)
    · exact isNumberPoint_scientific _ _ (isNumberPoint_decimal _)

/-- Apart from the words of the layout, only code points of numbers are written. -/
theorem mem_write {layout : FloatLayout} {x : Binary64} {c : CodePoint}
    (h : c ∈ x.write layout) :
    isNumberPoint c ∨ c ∈ layout.infinity ∨ c ∈ layout.nan := by
  have minus : ∀ c ∈ ("-" : Text), isNumberPoint c := isNumberPoint_of_all rfl
  cases x with
  | finite negative m e =>
    left
    simp only [write] at h
    split at h
    · exact (List.mem_append.1 h).elim (minus c) (isNumberPoint_writeMagnitude layout m e c)
    · exact isNumberPoint_writeMagnitude layout m e c h
  | infinite negative =>
    simp only [write] at h
    split at h
    · exact (List.mem_append.1 h).imp (minus c) Or.inl
    · exact Or.inr (Or.inl h)
  | nan => exact Or.inr (Or.inr h)

private theorem point_mem_positional (digits : Text) (point : Int) :
    0x2e ∈ positional digits point := by
  unfold positional
  split
  · exact List.mem_append_left _ (List.mem_append_left _ (by decide))
  · split
    · exact List.mem_append_right _ (by decide)
    · exact List.mem_append_left _ (List.mem_append_right _ (by decide))

private theorem exponent_mem_scientific (width : Nat) (digits : Text) (exponent : Int) :
    0x65 ∈ scientific width digits exponent := by
  unfold scientific
  refine List.mem_append_left _ (List.mem_append_left _ (List.mem_append_right _ ?_))
  split <;> decide

/-- Every number has a point, an exponent or a letter of a word. -/
theorem exists_mem_write {layout : FloatLayout} {P : CodePoint → Prop} (point : P 0x2e)
    (exponent : P 0x65) (infinity : ∃ c ∈ layout.infinity, P c) (nan : ∃ c ∈ layout.nan, P c)
    (x : Binary64) : ∃ c ∈ x.write layout, P c := by
  have signed : ∀ (negative : Bool) {text : Text}, (∃ c ∈ text, P c) →
      ∃ c ∈ (if negative then "-" ++ text else text), P c := by
    rintro negative text ⟨c, hc, hP⟩
    split
    · exact ⟨c, List.mem_append_right _ hc, hP⟩
    · exact ⟨c, hc, hP⟩
  cases x with
  | finite negative m e =>
    refine signed negative ?_
    unfold writeMagnitude
    dsimp only
    split
    · exact ⟨0x2e, by decide, point⟩
    · split
      · exact ⟨0x2e, point_mem_positional _ _, point⟩
      · exact ⟨0x65, exponent_mem_scientific _ _ _, exponent⟩
  | infinite negative => exact signed negative infinity
  | nan => exact nan

end Binary64

end DocShape
