import DocShape.Json.Reader
import DocShape.Json.Writer
import Mathlib.Data.List.Basic

/-!
The literals of JSON are read back as they are written. A text without unpaired halves is one token
whatever follows it (`reads_text`); an integer is one token where its digits end (`readsApart_integer`).
-/

namespace DocShape.Json

/-! ## Token by token -/

/-- A number does not go on at the start of a text. -/
def Ends (rest : Text) : Prop :=
  ∀ c ∈ rest.head?, ¬ (c.isDigit ∨ c.val = 0x2e ∨ c.val = 0x65 ∨ c.val = 0x45)

/-- A text is read as some tokens, whatever follows it. -/
def Reads (s : Text) (ts : List Token) : Prop := ∀ rest, tokens (s ++ rest) = ts ++ tokens rest

/-- A text is read as some tokens where no number goes on behind it. -/
def ReadsApart (s : Text) (ts : List Token) : Prop :=
  ∀ rest, Ends rest → tokens (s ++ rest) = ts ++ tokens rest

theorem tokens_of_next? {c : CodePoint} {s rest : Text} {token : Token} (hc : isSpace c = false)
    (h : Token.next? (c :: s) = some (token, rest)) : tokens (c :: s) = token :: tokens rest := by
  rw [tokens, if_neg (by simp [hc])]
  split
  · rename_i hn
    rw [hn] at h
    cases h
  · rename_i hn
    rw [hn] at h
    cases h
    rfl

theorem reads_blanks {s : Text} (h : ∀ c ∈ s, isSpace c) : Reads s [] := by
  intro rest
  induction s with
  | nil => rfl
  | cons c s ih =>
    obtain ⟨hc, hs⟩ := List.forall_mem_cons.1 h
    rw [List.cons_append, tokens, if_pos hc]
    exact ih hs

/-- A punctuation mark is neither a blank nor part of a number. -/
theorem punctuation_apart {c : CodePoint} {token : Token} (h : punctuation? c = some token) :
    isSpace c = false ∧ ∀ rest, Ends (c :: rest) := by
  have mark : c.val = 0x5b ∨ c.val = 0x5d ∨ c.val = 0x7b ∨ c.val = 0x7d ∨ c.val = 0x2c ∨
      c.val = 0x3a := by
    unfold punctuation? at h
    split at h <;> first | omega | cases h
  constructor
  · simp only [isSpace, Bool.or_eq_false_iff, beq_eq_false_iff_ne]
    omega
  · intro rest d hd
    cases hd
    rw [CodePoint.isDigit_iff]
    omega

theorem reads_punctuation {c : CodePoint} {token : Token} (h : punctuation? c = some token) :
    Reads [c] [token] := by
  intro rest
  apply tokens_of_next? (punctuation_apart h).1
  rw [Token.next?, h]
  rfl

theorem reads_null : Reads "null" [.scalar .null] := fun _ => tokens_of_next? rfl rfl

theorem reads_bool (b : Bool) : Reads (if b then "true" else "false") [.scalar (.bool b)] := by
  intro rest
  cases b with
  | true => exact tokens_of_next? rfl rfl
  | false => exact tokens_of_next? rfl rfl

/-! ## Strings -/

/-- Adds a unit in front of what has been read of a string. -/
private def consUnit (c : CodePoint) (s : Option (Text × Text)) : Option (Text × Text) :=
  s.map fun (units, rest) => (c :: units, rest)

private theorem stringUnits?_plain {c : CodePoint} (hq : c.val ≠ 0x22) (hb : c.val ≠ 0x5c)
    (hp : 0x20 ≤ c.val) (s : Text) : stringUnits? (c :: s) = consUnit c (stringUnits? s) := by
  rw [stringUnits?.eq_def (c :: s)]
  dsimp only
  rw [if_neg hq, if_neg hb, if_neg (by omega)]
  cases stringUnits? s <;> rfl

private theorem stringUnits?_short {e c : CodePoint} (h : shortEscape? e = some c) (s : Text) :
    stringUnits? (0x5c :: e :: s) = consUnit c (stringUnits? s) := by
  have hu : e.val ≠ 0x75 := by
    intro he
    simp [shortEscape?, he] at h
  rw [stringUnits?.eq_def]
  dsimp only
  rw [if_neg (by decide), if_pos (by decide), if_neg hu, h]
  cases stringUnits? s <;> rfl

private theorem stringUnits?_unit {c : CodePoint} (h : c.val < 0x10000) (s : Text) :
    stringUnits? (escapeUnit c.val ++ s) = consUnit c (stringUnits? s) := by
  obtain ⟨h₁, h₂, h₃, h₄, hex, v₁, v₂, v₃, v₄⟩ := Text.hex_four c.val
  have value : hexEscape? h₁ h₂ h₃ h₄ = some c := by
    simp only [hexEscape?, v₁, v₂, v₃, v₄, bind, Option.bind, pure, Option.some.injEq]
    apply Fin.ext
    simp only [Fin.ofNat]
    omega
  rw [escapeUnit, hex]
  show stringUnits? (0x5c :: 0x75 :: h₁ :: h₂ :: h₃ :: h₄ :: s) = _
  rw [stringUnits?, if_neg (by decide), if_pos (by decide), if_pos (by decide), value]
  cases stringUnits? s <;> rfl

/-- The three ways in which a code point of a string is written. -/
private theorem escapePoint_cases (c : CodePoint) :
    (∃ e, escapePoint false c = [0x5c, e] ∧ shortEscape? e = some c ∧ e.isSurrogate = false) ∨
      (escapePoint false c = escapeUnit c.val ∧ c.val < 0x20) ∨
      (escapePoint false c = [c] ∧ c.val ≠ 0x22 ∧ c.val ≠ 0x5c ∧ 0x20 ≤ c.val) := by
  by_cases h : c.val ∈ [0x22, 0x5c, 0x0a, 0x0d, 0x09, 0x08, 0x0c]
  · left
    have at_point : ∀ n : CodePoint, c.val = n.val → c = n := fun n h => Fin.ext h
    simp only [List.mem_cons, List.not_mem_nil, or_false] at h
    rcases h with h | h | h | h | h | h | h
    · cases at_point 0x22 h
      exact ⟨0x22, rfl, rfl, rfl⟩
    · cases at_point 0x5c h
      exact ⟨0x5c, rfl, rfl, rfl⟩
    · cases at_point 0x0a h
      exact ⟨0x6e, rfl, rfl, rfl⟩
    · cases at_point 0x0d h
      exact ⟨0x72, rfl, rfl, rfl⟩
    · cases at_point 0x09 h
      exact ⟨0x74, rfl, rfl, rfl⟩
    · cases at_point 0x08 h
      exact ⟨0x62, rfl, rfl, rfl⟩
    · cases at_point 0x0c h
      exact ⟨0x66, rfl, rfl, rfl⟩
  · right
    simp only [List.mem_cons, List.not_mem_nil, or_false, not_or] at h
    obtain ⟨hq, hb, hn, hr, ht, hbs, hf⟩ := h
    unfold escapePoint
    rw [if_neg hq, if_neg hb, if_neg hn, if_neg hr, if_neg ht, if_neg hbs, if_neg hf]
    by_cases hc : c.val < 0x20
    · exact .inl ⟨if_pos hc, hc⟩
    · exact .inr ⟨if_neg hc, hq, hb, by omega⟩

private theorem escapeSurrogates_unit (n : Nat) : (escapeUnit n).escapeSurrogates = escapeUnit n := by
  have mark : ("\\u" : Text).all (!·.isSurrogate) := by decide
  apply Text.escapeSurrogates_of_none
  intro c hc
  rcases List.mem_append.1 hc with hc | hc
  · simpa using List.all_eq_true.1 mark c hc
  · exact Text.isSurrogate_of_mem_hex hc

private theorem stringUnits?_point (c : CodePoint) (s : Text) :
    stringUnits? ((escapePoint false c).escapeSurrogates ++ s) = consUnit c (stringUnits? s) := by
  rcases escapePoint_cases c with ⟨e, he, hshort, hs⟩ | ⟨he, hc⟩ | ⟨he, hq, hb, hp⟩
  · have slash : CodePoint.isSurrogate 0x5c = false := rfl
    rw [he, Text.escapeSurrogates_of_none (by simp [slash, hs])]
    exact stringUnits?_short hshort s
  · rw [he, escapeSurrogates_unit]
    exact stringUnits?_unit (by omega) s
  · rw [he]
    by_cases hs : c.isSurrogate
    · have hlt : c.val < 0x10000 := by
        simp only [CodePoint.isSurrogate, CodePoint.isHighSurrogate, CodePoint.isLowSurrogate,
          Bool.or_eq_true, Bool.and_eq_true, decide_eq_true_eq] at hs
        omega
      have hu : Text.escapeSurrogates [c] = escapeUnit c.val := by
        simp [Text.escapeSurrogates, hs, escapeUnit]
      rw [hu]
      exact stringUnits?_unit hlt s
    · rw [Text.escapeSurrogates_of_none (by simpa using hs)]
      exact stringUnits?_plain hq hb hp s

private theorem stringUnits?_points (t rest : Text) :
    stringUnits? (Text.escapeSurrogates (t.flatMap (escapePoint false)) ++ 0x22 :: rest) =
      some (t, rest) := by
  induction t with
  | nil => 
    show stringUnits? (0x22 :: rest) = _
    rw [stringUnits?.eq_def]
    rfl
  | cons c t ih =>
    rw [List.flatMap_cons, Text.escapeSurrogates_append, List.append_assoc, stringUnits?_point, ih]
    rfl

/-- No high surrogate stands right before a low one. -/
def Unpaired (t : Text) : Prop :=
  t.IsChain fun high low => ¬ (high.isHighSurrogate ∧ low.isLowSurrogate)

private theorem joinSurrogatePairs_of_unpaired {t : Text} (h : Unpaired t) :
    joinSurrogatePairs t = t := by
  fun_induction joinSurrogatePairs t with
  | case1 high low rest hp ih =>
    have apart := (List.isChain_cons_cons.1 h).1
    exact absurd (by simpa using hp) apart
  | case2 high low rest hp ih => rw [ih (List.isChain_cons_cons.1 h).2]
  | case3 t ht => rfl

/-- A text without pairs is read from its quoted form, surrogates escaped or not. -/
theorem reads_text {t : Text} (h : Unpaired t) :
    Reads (writeText false t).escapeSurrogates [.text t] := by
  intro rest
  have form : (writeText false t).escapeSurrogates ++ rest =
      0x22 :: (Text.escapeSurrogates (t.flatMap (escapePoint false)) ++ 0x22 :: rest) := by
    have quote : Text.escapeSurrogates "\"" = [0x22] := rfl
    rw [writeText, Text.escapeSurrogates_append, Text.escapeSurrogates_append, quote,
      List.append_assoc, List.append_assoc]
    rfl
  have found : string? (0x22 :: (Text.escapeSurrogates (t.flatMap (escapePoint false)) ++
      0x22 :: rest)) = some (.text t, rest) := by
    rw [string?, if_pos (by decide), stringUnits?_points, Option.map_some]
    dsimp only
    rw [joinSurrogatePairs_of_unpaired h]
  rw [form]
  refine tokens_of_next? rfl ?_
  rw [Token.next?, found]
  rfl

/-! ## Integers -/

private theorem takeWhile_digits {digits rest : Text} (hd : ∀ c ∈ digits, c.isDigit)
    (hr : Ends rest) : (digits ++ rest).takeWhile CodePoint.isDigit = digits ∧
      (digits ++ rest).dropWhile CodePoint.isDigit = rest := by
  have stop : rest.takeWhile CodePoint.isDigit = [] ∧ rest.dropWhile CodePoint.isDigit = rest := by
    cases rest with
    | nil => exact ⟨rfl, rfl⟩
    | cons c rest =>
      have hc : ¬ c.isDigit := fun h => hr c rfl (.inl h)
      exact ⟨List.takeWhile_cons_of_neg hc, List.dropWhile_cons_of_neg hc⟩
  rw [List.takeWhile_append_of_pos hd, List.dropWhile_append_of_pos hd, stop.1, stop.2]
  exact ⟨List.append_nil _, rfl⟩

private theorem wholeDigits?_decimal (n : Nat) {rest : Text} (hr : Ends rest) :
    wholeDigits? (Text.decimal n ++ rest) = some (Text.decimal n, rest) := by
  have hd : ∀ c ∈ Text.decimal n, c.isDigit := fun c => Text.isDigit_of_mem_decimal
  obtain ⟨c, digits, hn, hz⟩ := Text.decimal_starts n
  obtain ⟨htake, hdrop⟩ := takeWhile_digits hd hr
  rw [hn] at hd htake hdrop ⊢
  rw [List.cons_append] at htake hdrop ⊢
  rw [wholeDigits?]
  by_cases hc : c.val = 0x30
  · rw [if_pos hc, hz hc]
    rfl
  · rw [if_neg hc, if_pos (hd c (List.mem_cons_self ..)), htake, hdrop]

private theorem fractionDigits_ends {rest : Text} (hr : Ends rest) :
    fractionDigits rest = ([], rest) := by
  cases rest with
  | nil => rfl
  | cons c rest =>
    have hc := hr c rfl
    exact if_neg fun h => hc (.inr (.inl h.1))

private theorem exponentPart_ends {rest : Text} (hr : Ends rest) :
    exponentPart rest = (none, rest) := by
  cases rest with
  | nil => rfl
  | cons c rest =>
    have hc := hr c rfl
    exact if_neg fun h => hc (.inr (.inr h.1))

private theorem magnitude?_decimal (negative : Bool) {n : Nat} {rest : Text} (hr : Ends rest)
    (hn : (Text.decimal n).length ≤ integerDigitLimit) :
    magnitude? negative (Text.decimal n ++ rest) =
      some (.scalar (.int (if negative then -n else n)), rest) := by
  rw [magnitude?, wholeDigits?_decimal n hr]
  dsimp only
  rw [fractionDigits_ends hr]
  dsimp only
  rw [exponentPart_ends hr]
  dsimp only
  have whole : (([] : Text).isEmpty && (none : Option Int).isNone) = true := rfl
  rw [if_pos whole, if_neg (by omega), Text.digitsValue_decimal]

/-- No word starts as a number does. -/
private theorem word?_number {c : CodePoint} (hc : c.isDigit) (s : Text) :
    word? (c :: s) = none ∧ word? (0x2d :: c :: s) = none := by
  have digit : ∀ a : Char, (CodePoint.ofChar a).isDigit = false → CodePoint.ofChar a ≠ c := by
    rintro a ha rfl
    rw [ha] at hc
    cases hc
  have minus : ∀ a : Char, a.toNat ≠ 0x2d → CodePoint.ofChar a ≠ 0x2d := fun a ha h =>
    ha (congrArg Fin.val h)
  constructor
  · simp [word?, wordTable, Text.ofString, digit 'n' rfl, digit 't' rfl, digit 'f' rfl,
      digit 'N' rfl, digit 'I' rfl, digit '-' rfl]
  · simp [word?, wordTable, Text.ofString, minus 'n' (by decide), minus 't' (by decide),
      minus 'f' (by decide), minus 'N' (by decide), minus 'I' (by decide), digit 'I' rfl]

private theorem punctuation?_digit {c : CodePoint} (hc : c.isDigit) : punctuation? c = none := by
  have := CodePoint.isDigit_iff.1 hc
  unfold punctuation?
  split <;> first | omega | rfl

private theorem isSpace_digit {c : CodePoint} (hc : c.isDigit) : isSpace c = false := by
  have := CodePoint.isDigit_iff.1 hc
  simp only [isSpace, Bool.or_eq_false_iff, beq_eq_false_iff_ne]
  omega

private theorem next?_number {c : CodePoint} {s : Text} (hp : punctuation? c = none)
    (hq : c.val ≠ 0x22) (hw : word? (c :: s) = none) :
    Token.next? (c :: s) = number? (c :: s) := by
  rw [Token.next?, hp]
  dsimp only
  rw [string?, if_neg hq, hw]
  rfl

private theorem escapeSurrogates_ofInt (n : Int) :
    (Text.ofInt n).escapeSurrogates = Text.ofInt n := by
  have digits : ∀ c ∈ Text.decimal n.natAbs, c.isSurrogate = false := by
    intro c hc
    have := CodePoint.isDigit_iff.1 (Text.isDigit_of_mem_decimal hc)
    simp only [CodePoint.isSurrogate, CodePoint.isHighSurrogate, CodePoint.isLowSurrogate,
      Bool.or_eq_false_iff, Bool.and_eq_false_iff, decide_eq_false_iff_not]
    omega
  apply Text.escapeSurrogates_of_none
  intro c hc
  unfold Text.ofInt at hc
  split at hc
  · rcases List.mem_append.1 hc with hc | hc
    · rw [List.mem_singleton.1 hc]
      rfl
    · exact digits c hc
  · exact digits c hc

theorem readsApart_integer {n : Int} (hn : (Text.decimal n.natAbs).length ≤ integerDigitLimit) :
    ReadsApart (Text.ofInt n).escapeSurrogates [.scalar (.int n)] := by
  intro rest hr
  rw [escapeSurrogates_ofInt]
  obtain ⟨c, digits, hd, -⟩ := Text.decimal_starts n.natAbs
  have hc : c.isDigit := Text.isDigit_of_mem_decimal (hd ▸ List.mem_cons_self ..)
  obtain ⟨hw, hw'⟩ := word?_number hc (digits ++ rest)
  unfold Text.ofInt
  by_cases neg : n < 0
  · have hv := magnitude?_decimal true hr hn
    have value : -(n.natAbs : Int) = n := by omega
    rw [if_pos rfl, value] at hv
    rw [if_pos neg, List.append_assoc]
    rw [hd, List.cons_append] at hv ⊢
    refine tokens_of_next? rfl ?_
    show Token.next? (0x2d :: c :: (digits ++ rest)) = _
    rw [next?_number rfl (by decide) hw', number?, if_pos (by decide), hv]
  · have hv := magnitude?_decimal false hr hn
    have value : (n.natAbs : Int) = n := by omega
    rw [if_neg (by decide), value] at hv
    rw [if_neg neg]
    rw [hd, List.cons_append] at hv ⊢
    refine tokens_of_next? (isSpace_digit hc) ?_
    have := CodePoint.isDigit_iff.1 hc
    rw [next?_number (punctuation?_digit hc) (by omega) hw, number?, if_neg (by omega), hv]

end DocShape.Json
