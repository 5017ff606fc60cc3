/-!
# Text as a list of code points

Documents may hold half of a surrogate pair, so text is kept as code points and not as characters.

* `Text.ofString` reads a literal, `Text.toString` prints text whose surrogates have been escaped;
* `Text.decimal` and `Text.hex` write numbers, `Text.digitsValue` reads the digits of one;
* `Text.escapeSurrogates` leaves no surrogate in a text;
* `Text.beforeLast`, `Text.afterFirst` and `Text.dropPrefix` cut text.
-/

namespace DocShape

/-- A Unicode code point, surrogates included. -/
abbrev CodePoint := Fin 0x110000

instance instNeZeroCodePoint : @NeZero Nat Zero.ofOfNat0 0x110000 := Nat.instNeZeroSucc

/-- Text is the list of its code points. -/
abbrev Text := List CodePoint

namespace CodePoint

def ofChar (c : Char) : CodePoint :=
  ⟨c.toNat, by
    have h := c.valid
    simp only [UInt32.isValidChar, Nat.isValidChar] at h
    simp only [Char.toNat]
    omega⟩

/-- A surrogate has no character of its own and gives the null character. -/
def toChar (c : CodePoint) : Char := Char.ofNat c.val

def isHighSurrogate (c : CodePoint) : Bool := 0xd800 ≤ c.val && c.val ≤ 0xdbff

def isLowSurrogate (c : CodePoint) : Bool := 0xdc00 ≤ c.val && c.val ≤ 0xdfff

def isSurrogate (c : CodePoint) : Bool := c.isHighSurrogate || c.isLowSurrogate

/-- The code point beyond the basic plane that a surrogate pair stands for. -/
def joinSurrogates (high low : CodePoint) : CodePoint :=
  Fin.ofNat _ (0x10000 + (high.val - 0xd800) * 0x400 + (low.val - 0xdc00))

/-- The value of an ASCII digit. -/
def digitValue? (c : CodePoint) : Option Nat :=
  if 0x30 ≤ c.val && c.val ≤ 0x39 then some (c.val - 0x30) else none

def isDigit (c : CodePoint) : Bool := c.digitValue?.isSome

theorem isDigit_iff {c : CodePoint} : c.isDigit ↔ 0x30 ≤ c.val ∧ c.val ≤ 0x39 := by
  unfold isDigit digitValue?
  split <;> simp_all

/-- The value of an ASCII hexadecimal digit of either case. -/
def hexValue? (c : CodePoint) : Option Nat :=
  if 0x30 ≤ c.val && c.val ≤ 0x39 then some (c.val - 0x30)
  else if 0x41 ≤ c.val && c.val ≤ 0x46 then some (c.val - 0x41 + 10)
  else if 0x61 ≤ c.val && c.val ≤ 0x66 then some (c.val - 0x61 + 10)
  else none

def isAsciiLetter (c : CodePoint) : Bool :=
  (0x41 ≤ c.val && c.val ≤ 0x5a) || (0x61 ≤ c.val && c.val ≤ 0x7a)

/-- Lower case of the ASCII letters; every other code point stays. -/
def lowerAscii (c : CodePoint) : CodePoint :=
  if 0x41 ≤ c.val && c.val ≤ 0x5a then Fin.ofNat _ (c.val + 0x20) else c

/-- Upper case of the letters whose capital is an ASCII letter, the dotless i and the long s
included; every other code point stays. -/
def upperAscii (c : CodePoint) : CodePoint :=
  if 0x61 ≤ c.val && c.val ≤ 0x7a then Fin.ofNat _ (c.val - 0x20)
  else if c.val = 0x131 then 0x49
  else if c.val = 0x17f then 0x53
  else c

end CodePoint

namespace Text

def ofString (s : String) : Text := s.toList.map CodePoint.ofChar

instance : Coe String Text := ⟨ofString⟩

/-! ## Numbers -/

private def digit (n : Nat) : CodePoint := Fin.ofNat _ (0x30 + n)

/-- The decimal digits of a number, without leading zeros. -/
def decimal (n : Nat) : Text :=
  if n < 10 then [digit n] else decimal (n / 10) ++ [digit (n % 10)]

theorem isDigit_of_mem_decimal {n : Nat} {c : CodePoint} (h : c ∈ decimal n) : c.isDigit := by
  have digits : ∀ k < 10, (digit k).isDigit := by decide
  induction n using Nat.strongRecOn with
  | ind n ih =>
    rw [decimal] at h
    split at h
    · rename_i hn
      rw [List.mem_singleton.1 h]
      exact digits n hn
    · rename_i hn
      rcases List.mem_append.1 h with h | h
      · exact ih (n / 10) (by omega) h
      · rw [List.mem_singleton.1 h]
        exact digits (n % 10) (Nat.mod_lt _ (by omega))

/-- A decimal integer with a minus sign when it is negative. -/
def ofInt (n : Int) : Text :=
  if n < 0 then "-" ++ decimal n.natAbs else decimal n.natAbs

private def hexDigit (n : Nat) : CodePoint :=
  if n < 10 then Fin.ofNat _ (0x30 + n) else Fin.ofNat _ (0x61 + (n - 10))

/-- The lowest `width` hexadecimal digits, in lower case. -/
def hex : Nat → Nat → Text
  | 0, _ => []
  | width + 1, n => hex width (n / 16) ++ [hexDigit (n % 16)]

private theorem hexValue?_hexDigit {n : Nat} (h : n < 16) : (hexDigit n).hexValue? = some n := by
  have values : ∀ k < 16, (hexDigit k).hexValue? = some k := by decide
  exact values n h

/-- Four hexadecimal digits and their values. -/
theorem hex_four (n : Nat) : ∃ a b c d, hex 4 n = [a, b, c, d] ∧
    a.hexValue? = some (n / 16 / 16 / 16 % 16) ∧ b.hexValue? = some (n / 16 / 16 % 16) ∧
    c.hexValue? = some (n / 16 % 16) ∧ d.hexValue? = some (n % 16) := by
  have value : ∀ k, (hexDigit (k % 16)).hexValue? = some (k % 16) := fun k =>
    hexValue?_hexDigit (Nat.mod_lt k (by omega))
  exact ⟨_, _, _, _, rfl, value _, value _, value _, value _⟩

/-- The number that a list of decimal digits writes; other code points count as zero. -/
def digitsValue (digits : Text) : Nat :=
  digits.foldl (fun n c => 10 * n + c.digitValue?.getD 0) 0

theorem digitsValue_decimal (n : Nat) : digitsValue (decimal n) = n := by
  have value : ∀ k < 10, (digit k).digitValue?.getD 0 = k := by decide
  induction n using Nat.strongRecOn with
  | ind n ih =>
    rw [decimal]
    split
    · rename_i hn
      simp [digitsValue, value n hn]
    · rename_i hn
      have hrest := ih (n / 10) (by omega)
      unfold digitsValue at hrest ⊢
      rw [List.foldl_append, hrest, List.foldl_cons, List.foldl_nil,
        value (n % 10) (Nat.mod_lt _ (by omega))]
      omega

theorem ofInt_injective {m n : Int} (h : ofInt m = ofInt n) : m = n := by
  -- No digit is a minus sign.
  have sign : ∀ k l : Nat, decimal k ≠ "-" ++ decimal l := by
    intro k l he
    have minus : (0x2d : CodePoint) ∈ decimal k := he ▸ List.mem_cons_self ..
    exact absurd (isDigit_of_mem_decimal minus) (by decide)
  have digits : ∀ {k l : Nat}, decimal k = decimal l → k = l := by
    intro k l he
    rw [← digitsValue_decimal k, he, digitsValue_decimal]
  unfold ofInt at h
  split at h <;> split at h
  · have := digits (List.append_cancel_left h)
    omega
  · exact absurd h.symm (sign _ _)
  · exact absurd h (sign _ _)
  · have := digits h
    omega

/-- Digits start with zero only where the number is zero. -/
theorem decimal_starts (n : Nat) : ∃ c rest, decimal n = c :: rest ∧
    (c.val = 0x30 → rest = []) := by
  have zero : ∀ k < 10, (digit k).val = 0x30 → k = 0 := by decide
  have starts : ∀ n, ∃ c rest, decimal n = c :: rest ∧ (c.val = 0x30 → n = 0) := by
    intro n
    induction n using Nat.strongRecOn with
    | ind n ih =>
      rw [decimal]
      split
      · rename_i hn
        exact ⟨_, [], rfl, zero n hn⟩
      · rename_i hn
        obtain ⟨c, rest, hd, hz⟩ := ih (n / 10) (by omega)
        refine ⟨c, rest ++ [digit (n % 10)], by rw [hd, List.cons_append], fun hc => ?_⟩
        have := hz hc
        omega
  obtain ⟨c, rest, hd, hz⟩ := starts n
  refine ⟨c, rest, hd, fun hc => ?_⟩
  rw [hz hc, decimal, if_pos (by omega)] at hd
  exact (List.cons.inj hd).2.symm

/-! ## Surrogates -/

/-- Writes each surrogate as a backslash, the letter u and four hexadecimal digits. -/
def escapeSurrogates (t : Text) : Text :=
  t.flatMap fun c => if c.isSurrogate then "\\u" ++ hex 4 c.val else [c]

@[simp] theorem escapeSurrogates_append (s t : Text) :
    (s ++ t).escapeSurrogates = s.escapeSurrogates ++ t.escapeSurrogates := List.flatMap_append

theorem escapeSurrogates_of_none {t : Text} (h : ∀ c ∈ t, c.isSurrogate = false) :
    t.escapeSurrogates = t := by
  unfold escapeSurrogates
  induction t with
  | nil => rfl
  | cons c rest ih =>
    obtain ⟨hc, hrest⟩ := List.forall_mem_cons.1 h
    rw [List.flatMap_cons, ih hrest, hc]
    rfl

theorem mem_hex {width n : Nat} {c : CodePoint} (h : c ∈ hex width n) :
    (0x30 ≤ c.val ∧ c.val ≤ 0x39) ∨ (0x61 ≤ c.val ∧ c.val ≤ 0x66) := by
  have digits : ∀ k < 16, (0x30 ≤ (hexDigit k).val ∧ (hexDigit k).val ≤ 0x39) ∨
      (0x61 ≤ (hexDigit k).val ∧ (hexDigit k).val ≤ 0x66) := by decide
  induction width generalizing n with
  | zero => cases h
  | succ width ih =>
    rcases List.mem_append.1 h with h | h
    · exact ih h
    · rw [List.mem_singleton.1 h]
      exact digits _ (Nat.mod_lt _ (by omega))

theorem isSurrogate_of_mem_hex {width n : Nat} {c : CodePoint} (h : c ∈ hex width n) :
    c.isSurrogate = false := by
  have := mem_hex h
  simp only [CodePoint.isSurrogate, CodePoint.isHighSurrogate, CodePoint.isLowSurrogate,
    Bool.or_eq_false_iff, Bool.and_eq_false_iff, decide_eq_false_iff_not]
  omega

theorem isSurrogate_of_mem_escapeSurrogates {t : Text} {c : CodePoint}
    (h : c ∈ t.escapeSurrogates) : c.isSurrogate = false := by
  have mark : ("\\u" : Text).all (!·.isSurrogate) := by decide
  obtain ⟨d, -, hc⟩ := List.mem_flatMap.1 h
  split at hc
  · rcases List.mem_append.1 hc with hc | hc
    · simpa using List.all_eq_true.1 mark c hc
    · exact isSurrogate_of_mem_hex hc
  · rename_i hd
    rw [List.mem_singleton.1 hc]
    exact Bool.eq_false_iff.2 hd

/-- A printable form: surrogates are escaped, all other code points stay. -/
def toString (t : Text) : String := String.ofList (t.escapeSurrogates.map CodePoint.toChar)

/-! ## Cutting and joining -/

/-- What follows `start`, if the text starts with it. -/
def dropPrefix? (start : Text) (t : Text) : Option Text :=
  if start.isPrefixOf t then some (t.drop start.length) else none

/-- What follows `start`, or the whole text where it does not start so. -/
def dropPrefix (start : Text) (t : Text) : Text := (dropPrefix? start t).getD t

/-- The text before the last `mark`, empty when there is none. -/
def beforeLast (mark : CodePoint) (t : Text) : Text :=
  ((t.reverse.dropWhile (· != mark)).drop 1).reverse

/-- The text after the first `mark`, empty when there is none. -/
def afterFirst (mark : CodePoint) (t : Text) : Text := (t.dropWhile (· != mark)).drop 1

theorem beforeLast_append_cons {mark : CodePoint} {t : Text} (h : mark ∉ t) (s : Text) :
    beforeLast mark (s ++ mark :: t) = s := by
  have other : ∀ c ∈ t.reverse, (c != mark) = true := by
    intro c hc
    rw [bne_iff_ne]
    rintro rfl
    exact h (List.mem_reverse.1 hc)
  rw [beforeLast, List.reverse_append, List.reverse_cons, List.append_assoc,
    List.dropWhile_append_of_pos other]
  simp

theorem beforeLast_of_not_mem {mark : CodePoint} {t : Text} (h : mark ∉ t) : beforeLast mark t = [] := by
  have other : ∀ c ∈ t.reverse, (c != mark) = true := by
    intro c hc
    rw [bne_iff_ne]
    rintro rfl
    exact h (List.mem_reverse.1 hc)
  rw [beforeLast, ← List.append_nil t.reverse, List.dropWhile_append_of_pos other]
  rfl

theorem afterFirst_append_cons {mark : CodePoint} {s : Text} (h : mark ∉ s) (t : Text) :
    afterFirst mark (s ++ mark :: t) = t := by
  have other : ∀ c ∈ s, (c != mark) = true := by
    intro c hc
    rw [bne_iff_ne]
    rintro rfl
    exact h hc
  rw [afterFirst, List.dropWhile_append_of_pos other]
  simp

/-- Removes a code point from the end as often as it stands there. -/
def dropTrailing (mark : CodePoint) (t : Text) : Text :=
  (t.reverse.dropWhile (· == mark)).reverse

/-- Every other code point stays. -/
theorem mem_dropTrailing {mark c : CodePoint} (h : c ≠ mark) {t : Text} :
    c ∈ dropTrailing mark t ↔ c ∈ t := by
  rw [dropTrailing, List.mem_reverse, ← @List.mem_reverse _ c t]
  constructor
  · exact fun hc => (List.dropWhile_sublist _).subset hc
  · intro hc
    rw [← List.takeWhile_append_dropWhile (p := (· == mark)) (l := t.reverse)] at hc
    rcases List.mem_append.1 hc with hc | hc
    · have same : (c == mark) = true := List.all_eq_true.1 List.all_takeWhile c hc
      exact absurd (eq_of_beq same) h
    · exact hc

/-- Removes a code point from both ends as often as it stands there. -/
def trimMark (mark : CodePoint) (t : Text) : Text := dropTrailing mark (t.dropWhile (· == mark))

/-- The parts with `separator` between neighbours. -/
def joinWith (separator : Text) (parts : List Text) : Text := List.intercalate separator parts

def lowerAscii (t : Text) : Text := t.map CodePoint.lowerAscii

def upperAscii (t : Text) : Text := t.map CodePoint.upperAscii

end Text

end DocShape
