import DocShape.Json.Value

/-!
# Tokens of JSON text

* `Json.Token.next?` cuts the first token off a text that does not start with a blank;
* `Json.tokens` cuts a whole text, and ends early, with `Token.malformed`, where no token starts.

Besides the values of the standard, the three words for numbers that are not finite are accepted.
-/

namespace DocShape.Json

inductive Token
  | openArray
  | closeArray
  | openObject
  | closeObject
  | comma
  | colon
  | text (t : Text)
  | scalar (v : Value)
  | overlongInteger
  | malformed
  deriving Repr

/-! ## Strings -/

/-- Joins each high surrogate with a low one right behind it. -/
def joinSurrogatePairs : Text → Text
  | high :: low :: rest =>
    if high.isHighSurrogate && low.isLowSurrogate then
      CodePoint.joinSurrogates high low :: joinSurrogatePairs rest
    else high :: joinSurrogatePairs (low :: rest)
  | t => t

/-- What a backslash with one letter stands for. -/
def shortEscape? (c : CodePoint) : Option CodePoint :=
  match c.val with
  | 0x22 => some 0x22
  | 0x5c => some 0x5c
  | 0x2f => some 0x2f
  | 0x62 => some 0x08
  | 0x66 => some 0x0c
  | 0x6e => some 0x0a
  | 0x72 => some 0x0d
  | 0x74 => some 0x09
  | _ => none

/-- The code point of four hexadecimal digits. -/
def hexEscape? (a b c d : CodePoint) : Option CodePoint := do
  let a ← a.hexValue?
  let b ← b.hexValue?
  let c ← c.hexValue?
  let d ← d.hexValue?
  return Fin.ofNat _ (((a * 16 + b) * 16 + c) * 16 + d)

/-- The units of a string up to its closing quote, and the text behind it. Controls may not stand in
a string. -/
def stringUnits? : Text → Option (Text × Text)
  | [] => none
  | c :: rest =>
    if c.val = 0x22 then some ([], rest)
    else if c.val = 0x5c then
      match rest with
      | [] => none
      | e :: rest =>
        if e.val = 0x75 then
          match rest with
          | h₁ :: h₂ :: h₃ :: h₄ :: rest =>
            match hexEscape? h₁ h₂ h₃ h₄, stringUnits? rest with
            | some unit, some (units, rest) => some (unit :: units, rest)
            | _, _ => none
          | _ => none
        else
          match shortEscape? e, stringUnits? rest with
          | some unit, some (units, rest) => some (unit :: units, rest)
          | _, _ => none
    else if c.val < 0x20 then none
    else
      match stringUnits? rest with
      | some (units, rest) => some (c :: units, rest)
      | none => none

theorem length_stringUnits? {s units rest : Text} (h : stringUnits? s = some (units, rest)) :
    rest.length < s.length := by
  fun_induction stringUnits? s generalizing units rest <;> simp_all
  all_goals grind

/-! ## Numbers -/

/-- The digits before the point: a zero alone, or digits that do not start with zero. -/
def wholeDigits? (s : Text) : Option (Text × Text) :=
  match s with
  | [] => none
  | c :: rest =>
    if c.val = 0x30 then some ([c], rest)
    else if c.isDigit then some (s.takeWhile CodePoint.isDigit, s.dropWhile CodePoint.isDigit)
    else none

/-- A point with the digits behind it; nothing where there are none. -/
def fractionDigits (s : Text) : Text × Text :=
  match s with
  | c :: rest =>
    if c.val = 0x2e ∧ rest.takeWhile CodePoint.isDigit ≠ [] then
      (rest.takeWhile CodePoint.isDigit, rest.dropWhile CodePoint.isDigit)
    else ([], s)
  | [] => ([], s)

/-- A sign, negative or not, and the text behind it. -/
def signOf (s : Text) : Bool × Text :=
  match s with
  | c :: rest => if c.val = 0x2d then (true, rest) else if c.val = 0x2b then (false, rest) else (false, s)
  | [] => (false, s)

/-- The letter e with an exponent behind it; nothing where there is none. -/
def exponentPart (s : Text) : Option Int × Text :=
  match s with
  | c :: rest =>
    let (negative, digits) := signOf rest
    if (c.val = 0x65 ∨ c.val = 0x45) ∧ digits.takeWhile CodePoint.isDigit ≠ [] then
      let n : Int := Text.digitsValue (digits.takeWhile CodePoint.isDigit)
      (some (if negative then -n else n), digits.dropWhile CodePoint.isDigit)
    else (none, s)
  | [] => (none, s)

/-- A number without its minus sign. Only one with a fraction or an exponent is a floating-point
number. -/
def magnitude? (negative : Bool) (s : Text) : Option (Token × Text) :=
  match wholeDigits? s with
  | none => none
  | some (whole, rest) =>
    let (fraction, rest) := fractionDigits rest
    let (exponent, rest) := exponentPart rest
    let token : Token :=
      if fraction.isEmpty && exponent.isNone then
        if integerDigitLimit < whole.length then .overlongInteger
        else
          let n : Int := Text.digitsValue whole
          .scalar (.int (if negative then -n else n))
      else
        .scalar (.float (Binary64.ofDecimal negative (Text.digitsValue (whole ++ fraction))
          (exponent.getD 0 - fraction.length)))
    some (token, rest)

private theorem length_dropWhile_le (p : CodePoint → Bool) (s : Text) :
    (s.dropWhile p).length ≤ s.length := (List.dropWhile_sublist p).length_le

theorem length_wholeDigits? {s whole rest : Text} (h : wholeDigits? s = some (whole, rest)) :
    rest.length < s.length := by
  unfold wholeDigits? at h
  split at h
  · simp at h
  · rename_i c tail
    have := length_dropWhile_le CodePoint.isDigit tail
    grind [List.dropWhile_cons]

theorem length_fractionDigits (s : Text) : (fractionDigits s).2.length ≤ s.length := by
  unfold fractionDigits
  split
  · rename_i c rest
    have := length_dropWhile_le CodePoint.isDigit rest
    split <;> simp
    omega
  · simp

theorem length_signOf (s : Text) : (signOf s).2.length ≤ s.length := by
  unfold signOf
  grind

theorem length_exponentPart (s : Text) : (exponentPart s).2.length ≤ s.length := by
  unfold exponentPart
  split
  · rename_i c rest
    have h₁ := length_signOf rest
    have h₂ := length_dropWhile_le CodePoint.isDigit (signOf rest).2
    dsimp only
    split <;> simp
    omega
  · simp

theorem length_magnitude? {negative : Bool} {s : Text} {token : Token} {rest : Text}
    (h : magnitude? negative s = some (token, rest)) : rest.length < s.length := by
  unfold magnitude? at h
  split at h
  · simp at h
  · rename_i whole tail hw
    have h₁ := length_wholeDigits? hw
    have h₂ := length_fractionDigits tail
    have h₃ := length_exponentPart (fractionDigits tail).2
    simp only [Option.some.injEq, Prod.mk.injEq] at h
    rw [← h.2]
    omega

/-! ## Tokens -/

/-- The words that are values. -/
def wordTable : List (Text × Value) :=
  [("null", .null), ("true", .bool true), ("false", .bool false), ("NaN", .float .nan),
    ("Infinity", .float (.infinite false)), ("-Infinity", .float (.infinite true))]

/-- The value whose word starts the text. -/
def word? (s : Text) : Option (Token × Text) :=
  (wordTable.find? fun entry => entry.1.isPrefixOf s).map fun entry =>
    (.scalar entry.2, s.drop entry.1.length)

def number? (s : Text) : Option (Token × Text) :=
  match s with
  | c :: rest => if c.val = 0x2d then magnitude? true rest else magnitude? false s
  | [] => none

def punctuation? (c : CodePoint) : Option Token :=
  match c.val with
  | 0x5b => some .openArray
  | 0x5d => some .closeArray
  | 0x7b => some .openObject
  | 0x7d => some .closeObject
  | 0x2c => some .comma
  | 0x3a => some .colon
  | _ => none

def string? (s : Text) : Option (Token × Text) :=
  match s with
  | c :: rest =>
    if c.val = 0x22 then
      (stringUnits? rest).map fun (units, rest) => (.text (joinSurrogatePairs units), rest)
    else none
  | [] => none

/-- The first token of a text, and the text behind it. -/
def Token.next? (s : Text) : Option (Token × Text) :=
  match s with
  | [] => none
  | c :: rest =>
    match punctuation? c with
    | some token => some (token, rest)
    | none => (string? s).or ((word? s).or (number? s))

private theorem length_word? {c : CodePoint} {s rest : Text} {token : Token}
    (h : word? (c :: s) = some (token, rest)) : rest.length < (c :: s).length := by
  have positive : ∀ entry ∈ wordTable, 0 < entry.1.length := by decide
  obtain ⟨entry, found, heq⟩ := Option.map_eq_some_iff.1 h
  have := positive entry (List.mem_of_find?_eq_some found)
  obtain ⟨-, rfl⟩ := Prod.mk.inj heq
  simp only [List.length_drop, List.length_cons]
  omega

private theorem length_number? {s rest : Text} {token : Token}
    (h : number? s = some (token, rest)) : rest.length < s.length := by
  unfold number? at h
  split at h
  · rename_i c tail
    split at h
    · have := length_magnitude? h
      simp only [List.length_cons]
      omega
    · exact length_magnitude? h
  · simp at h

private theorem length_string? {s rest : Text} {token : Token}
    (h : string? s = some (token, rest)) : rest.length < s.length := by
  unfold string? at h
  split at h
  · rename_i c tail
    split at h
    · obtain ⟨⟨units, behind⟩, found, heq⟩ := Option.map_eq_some_iff.1 h
      have := length_stringUnits? found
      obtain ⟨-, rfl⟩ := Prod.mk.inj heq
      simp only [List.length_cons]
      omega
    · simp at h
  · simp at h

theorem Token.length_next? {s rest : Text} {token : Token}
    (h : Token.next? s = some (token, rest)) : rest.length < s.length := by
  unfold Token.next? at h
  split at h
  · simp at h
  · rename_i c tail
    split at h
    · simp_all
    · rcases Option.or_eq_some_iff.1 h with h | ⟨-, h⟩
      · exact length_string? h
      · rcases Option.or_eq_some_iff.1 h with h | ⟨-, h⟩
        · exact length_word? h
        · exact length_number? h

/-- A blank of JSON text. -/
def isSpace (c : CodePoint) : Bool :=
  c.val == 0x20 || c.val == 0x0a || c.val == 0x0d || c.val == 0x09

/-- The tokens of a text. -/
def tokens (s : Text) : List Token :=
  match s with
  | [] => []
  | c :: rest =>
    if isSpace c then tokens rest
    else
      match _h : Token.next? (c :: rest) with
      | none => [.malformed]
      | some (token, rest') => token :: tokens rest'
termination_by s.length
decreasing_by
  · simp
  · exact Token.length_next? _h

end DocShape.Json
