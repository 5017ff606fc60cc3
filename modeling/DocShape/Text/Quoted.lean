import DocShape.Text.Printable

/-!
# Quoted text in messages

`Text.quoted` puts text between quotes in such a way that it stays on one line: single quotes, or
double quotes where the text holds single quotes only. `Text.quoted_eq` says what stands between them.
-/

namespace DocShape

namespace Text

/-- One code point inside quotes: the quote in use and the backslash are escaped, the common controls
have a letter, and other unprintable code points are written by number. -/
private def quotePoint (quote c : CodePoint) : Text :=
  if c = quote ∨ c.val = 0x5c then [0x5c, c]
  else if c.val = 0x0a then "\\n"
  else if c.val = 0x0d then "\\r"
  else if c.val = 0x09 then "\\t"
  else if c.isPrintable then [c]
  else if c.val < 0x100 then "\\x" ++ hex 2 c.val
  else if c.val < 0x10000 then "\\u" ++ hex 4 c.val
  else "\\U" ++ hex 8 c.val

/-- The quote that needs the fewer escapes, the single one when both are used. -/
private def quoteFor (t : Text) : CodePoint :=
  if t.contains 0x27 && !t.contains 0x22 then 0x22 else 0x27

/-- The text between quotes. -/
def quoted (t : Text) : Text :=
  let quote := quoteFor t
  [quote] ++ t.flatMap (quotePoint quote) ++ [quote]

end Text

/-! ## Between quotes -/

/-- Text that stays between quotes: a backslash takes the next code point with it, and the quote does not stand
alone. -/
inductive Enclosed (quote : CodePoint) : Text → Prop
  | nil : Enclosed quote []
  | plain {c : CodePoint} {rest : Text} : c ≠ quote → c ≠ 0x5c → Enclosed quote rest →
    Enclosed quote (c :: rest)
  | escaped {c : CodePoint} {rest : Text} : Enclosed quote rest →
    Enclosed quote (0x5c :: c :: rest)

theorem Enclosed.append {quote : CodePoint} {s t : Text} (h : Enclosed quote s)
    (h' : Enclosed quote t) : Enclosed quote (s ++ t) := by
  induction h with
  | nil => exact h'
  | plain hq hb _ ih => exact .plain hq hb ih
  | escaped _ ih => exact .escaped ih

theorem enclosed_of_plain {quote : CodePoint} {s : Text} (h : ∀ c ∈ s, c ≠ quote ∧ c ≠ 0x5c) :
    Enclosed quote s := by
  induction s with
  | nil => exact .nil
  | cons c rest ih =>
    obtain ⟨hc, hrest⟩ := List.forall_mem_cons.1 h
    exact .plain hc.1 hc.2 (ih hrest)

/-- A way to write single code points between quotes: as they are, or with a backslash. -/
def Escapes (quote : CodePoint) (f : CodePoint → Text) : Prop :=
  ∀ c, (f c = [c] ∧ c ≠ quote ∧ c ≠ 0x5c) ∨ (Enclosed quote (f c) ∧ 0x5c ∈ f c)

/-- Written text stays between its quotes, and it is the text itself or has a backslash. -/
theorem Escapes.flatMap {quote : CodePoint} {f : CodePoint → Text} (h : Escapes quote f) (t : Text) :
    Enclosed quote (t.flatMap f) ∧ (t.flatMap f = t ∨ 0x5c ∈ t.flatMap f) := by
  induction t with
  | nil => exact ⟨.nil, .inl rfl⟩
  | cons c rest ih =>
    rw [List.flatMap_cons]
    rcases h c with ⟨hc, hq, hb⟩ | ⟨hc, hb⟩
    · rw [hc]
      refine ⟨.plain hq hb ih.1, ih.2.imp (fun he => ?_) (List.mem_cons_of_mem _)⟩
      rw [he]
      rfl
    · exact ⟨hc.append ih.1, .inr (List.mem_append_left _ hb)⟩

theorem enclosed_hex {quote : CodePoint} (hq : quote = 0x22 ∨ quote = 0x27) (width n : Nat) :
    Enclosed quote (Text.hex width n) := by
  refine enclosed_of_plain fun c hc => ?_
  have digits := Text.mem_hex hc
  constructor
  · rintro rfl
    rcases hq with rfl | rfl <;> exact absurd digits (by decide)
  · rintro rfl
    exact absurd digits (by decide)

namespace Text

private theorem escapes_quotePoint {quote : CodePoint} (hq : quote = 0x22 ∨ quote = 0x27) :
    Escapes quote (quotePoint quote) := by
  -- What is escaped is a backslash, one more code point, and perhaps digits.
  have escaped : ∀ (c : CodePoint) {digits : Text}, Enclosed quote digits →
      Enclosed quote (0x5c :: c :: digits) ∧ 0x5c ∈ (0x5c : CodePoint) :: c :: digits :=
    fun c digits hd => ⟨.escaped hd, List.mem_cons_self ..⟩
  intro c
  unfold quotePoint
  split
  · exact .inr (escaped c .nil)
  rename_i hc
  rw [not_or] at hc
  split
  · exact .inr (escaped _ .nil)
  split
  · exact .inr (escaped _ .nil)
  split
  · exact .inr (escaped _ .nil)
  split
  · exact .inl ⟨rfl, hc.1, fun h => hc.2 (congrArg Fin.val h)⟩
  split
  · exact .inr (escaped _ (enclosed_hex hq ..))
  split
  · exact .inr (escaped _ (enclosed_hex hq ..))
  · exact .inr (escaped _ (enclosed_hex hq ..))

theorem quoted_eq (t : Text) : ∃ quote body, (quote = 0x22 ∨ quote = 0x27) ∧
    t.quoted = quote :: (body ++ [quote]) ∧ Enclosed quote body ∧ (body = t ∨ 0x5c ∈ body) := by
  have hq : quoteFor t = 0x22 ∨ quoteFor t = 0x27 := by
    unfold quoteFor
    split
    · exact .inl rfl
    · exact .inr rfl
  obtain ⟨inside, same⟩ := (escapes_quotePoint hq).flatMap t
  exact ⟨quoteFor t, _, hq, rfl, inside, same⟩

end Text

end DocShape
