import DocShape.Json.Writer
import DocShape.Proofs.Json.Keys
import DocShape.Proofs.Json.Spelling
import Mathlib.Logic.Function.Basic

/-!
Documents in which ids have other numbers. Values that are spelled alike are still spelled alike with new
numbers (`asciiText_renumber`, `spelled_renumber`): a spelling has one reading, and the reading shows
which words are ids.
-/

namespace DocShape.Json

/-! ## New numbers -/

/-- Whether integers under a key are ids. -/
def isIdKey (key : Text) : Bool := key == Text.ofString "id" || key == Text.ofString "target"

namespace Value

mutual

/-- A value in which ids have new numbers; `named` says whether it stands under the key of an id. -/
def renumber (f : Int → Int) (named : Bool) : Value → Value
  | .int n => .int (if named then f n else n)
  | .array items => .array (renumberItems f items)
  | .object members => .object (renumberMembers f members)
  | v => v

def renumberItems (f : Int → Int) : List Value → List Value
  | [] => []
  | item :: rest => renumber f false item :: renumberItems f rest

def renumberMembers (f : Int → Int) : List (Text × Value) → List (Text × Value)
  | [] => []
  | (key, v) :: rest => (key, renumber f (isIdKey key) v) :: renumberMembers f rest

end

section

variable {f : Int → Int}

theorem renumberItems_eq_map (items : List Value) :
    renumberItems f items = items.map (renumber f false) := by
  induction items with
  | nil => rfl
  | cons item rest ih => rw [renumberItems, ih, List.map_cons]

@[simp] theorem isEmpty_renumber (v : Value) : (v.renumber f false).isEmpty = v.isEmpty := by
  cases v with
  | array items => cases items <;> rfl
  | object members => cases members <;> rfl
  | _ => rfl

mutual

theorem renumber_renumber {g : Int → Int} (h : Function.LeftInverse g f) :
    ∀ (v : Value) (named : Bool), (v.renumber f named).renumber g named = v
  | .int n, named => by cases named <;> simp [renumber, h n]
  | .array items, named => by simp only [renumber, renumberItems_renumberItems h items]
  | .object members, named => by simp only [renumber, renumberMembers_renumberMembers h members]
  | .null, _ => rfl
  | .bool _, _ => rfl
  | .float _, _ => rfl
  | .text _, _ => rfl

theorem renumberItems_renumberItems {g : Int → Int} (h : Function.LeftInverse g f) :
    ∀ items : List Value, renumberItems g (renumberItems f items) = items
  | [] => rfl
  | item :: rest => by
    rw [renumberItems, renumberItems, renumber_renumber h item, renumberItems_renumberItems h rest]

theorem renumberMembers_renumberMembers {g : Int → Int} (h : Function.LeftInverse g f) :
    ∀ members : Members, renumberMembers g (renumberMembers f members) = members
  | [] => rfl
  | (key, v) :: rest => by
    rw [renumberMembers, renumberMembers, renumber_renumber h v,
      renumberMembers_renumberMembers h rest]

end

theorem renumberMembers_insertByKey (key : Text) (v : Value) (members : Members) :
    renumberMembers f (insertByKey (key, v) members) =
      insertByKey (key, v.renumber f (isIdKey key)) (renumberMembers f members) := by
  induction members with
  | nil => rfl
  | cons m rest ih =>
    obtain ⟨k, w⟩ := m
    rw [insertByKey, renumberMembers, insertByKey]
    split
    · rfl
    · rw [renumberMembers, ih]

mutual

theorem sortKeys_renumber : ∀ (v : Value) (named : Bool),
    (v.renumber f named).sortKeys = v.sortKeys.renumber f named
  | .int _, _ => rfl
  | .array items, _ => by simp only [renumber, sortKeys, sortKeysItems_renumber items]
  | .object members, _ => by simp only [renumber, sortKeys, sortKeysMembers_renumber members]
  | .null, _ => rfl
  | .bool _, _ => rfl
  | .float _, _ => rfl
  | .text _, _ => rfl

theorem sortKeysItems_renumber : ∀ items : List Value,
    sortKeysItems (renumberItems f items) = renumberItems f (sortKeysItems items)
  | [] => rfl
  | item :: rest => by
    rw [renumberItems, sortKeysItems, sortKeysItems, renumberItems, sortKeys_renumber item,
      sortKeysItems_renumber rest]

theorem sortKeysMembers_renumber : ∀ members : Members,
    sortKeysMembers (renumberMembers f members) = renumberMembers f (sortKeysMembers members)
  | [] => rfl
  | (key, v) :: rest => by
    rw [renumberMembers, sortKeysMembers, sortKeysMembers, renumberMembers_insertByKey,
      sortKeys_renumber v, sortKeysMembers_renumber rest]

end

end

end Value

/-! ## Scripts -/

/-- A bare word that is no integer. -/
structure IsName (w : Text) : Prop where
  bare : IsBare w
  not_integer : ∀ n, w ≠ Text.ofInt n

/-- The keys that are recognised when they are spelled. -/
def knownKeys : List Text := [Text.ofString "id", Text.ofString "target", Text.ofString "type"]

/-- How values are spelled out: the words for what holds no other values. Integers have their digits. -/
structure Script where
  null : Text
  bool : Bool → Text
  float : Binary64 → Text
  quote : Text → Text
  null_name : IsName null
  bool_name : ∀ b, IsName (bool b)
  float_name : ∀ x, IsName (float x)
  quoted : ∀ t, IsQuoted (quote t)
  quote_eq : ∀ key ∈ knownKeys, ∀ t, quote t = quote key → t = key

namespace Script

variable (s : Script)

mutual

def spelling : Value → Spelling
  | .null => .word s.null
  | .bool b => .word (s.bool b)
  | .int n => .word (Text.ofInt n)
  | .float x => .word (s.float x)
  | .text t => .word (s.quote t)
  | .array items => .list (spellings items)
  | .object members => .record (memberSpellings members)

def spellings : List Value → List Spelling
  | [] => []
  | item :: rest => spelling item :: spellings rest

def memberSpellings : List (Text × Value) → List (Text × Spelling)
  | [] => []
  | (key, v) :: rest => (s.quote key, spelling v) :: memberSpellings rest

end

end Script

theorem mem_ofInt {n : Int} {c : CodePoint} (h : c ∈ Text.ofInt n) : c.isDigit ∨ c = 0x2d := by
  unfold Text.ofInt at h
  split at h
  · rcases List.mem_append.1 h with h | h
    · exact .inr (List.mem_singleton.1 h)
    · exact .inl (Text.isDigit_of_mem_decimal h)
  · exact .inl (Text.isDigit_of_mem_decimal h)

private theorem isMark_digit {c : CodePoint} (h : c.isDigit) : c.isMark = false := by
  have := CodePoint.isDigit_iff.1 h
  simp only [CodePoint.isMark, List.contains_eq_mem, List.mem_cons, List.not_mem_nil, or_false,
    decide_eq_false_iff_not]
  omega

theorem isBare_ofInt (n : Int) : IsBare (Text.ofInt n) := by
  constructor
  · obtain ⟨c, rest, h, -⟩ := Text.decimal_starts n.natAbs
    unfold Text.ofInt
    rw [h]
    split <;> exact fun he => by cases he
  · intro c hc
    rcases mem_ofInt hc with h | rfl
    · exact isMark_digit h
    · decide

namespace Script

variable (s : Script)

mutual

theorem spelling_wellFormed : ∀ v : Value, (s.spelling v).WellFormed
  | .null => .word (.inr s.null_name.bare)
  | .bool b => .word (.inr (s.bool_name b).bare)
  | .int n => .word (.inr (isBare_ofInt n))
  | .float x => .word (.inr (s.float_name x).bare)
  | .text t => .word (.inl (s.quoted t))
  | .array items => .list (spellings_wellFormed items)
  | .object members => .record (fun m hm => (memberSpellings_wellFormed members m hm).1)
      fun m hm => (memberSpellings_wellFormed members m hm).2

theorem spellings_wellFormed : ∀ (items : List Value), ∀ x ∈ s.spellings items, x.WellFormed
  | [], _, hx => by cases hx
  | item :: rest, x, hx => by
    rcases List.mem_cons.1 hx with rfl | hx
    · exact spelling_wellFormed item
    · exact spellings_wellFormed rest x hx

theorem memberSpellings_wellFormed : ∀ (members : Members), ∀ m ∈ s.memberSpellings members,
    IsQuoted m.1 ∧ m.2.WellFormed
  | [], _, hm => by cases hm
  | (key, v) :: rest, m, hm => by
    rcases List.mem_cons.1 hm with rfl | hm
    · exact ⟨s.quoted key, spelling_wellFormed v⟩
    · exact memberSpellings_wellFormed rest m hm

end

end Script

/-! ## Spellings with new numbers -/

open Classical in
/-- The word of an integer with its new number; other words stay. -/
noncomputable def respellWord (f : Int → Int) (w : Text) : Text :=
  if h : ∃ n, w = Text.ofInt n then Text.ofInt (f h.choose) else w

theorem respellWord_ofInt (f : Int → Int) (n : Int) :
    respellWord f (Text.ofInt n) = Text.ofInt (f n) := by
  have h : ∃ m, Text.ofInt n = Text.ofInt m := ⟨n, rfl⟩
  rw [respellWord, dif_pos h, ← Text.ofInt_injective h.choose_spec]

theorem respellWord_of_ne {w : Text} (h : ∀ n, w ≠ Text.ofInt n) (f : Int → Int) :
    respellWord f w = w := by
  rw [respellWord, dif_neg fun ⟨n, hn⟩ => h n hn]

theorem ne_ofInt_of_isQuoted {w : Text} (h : IsQuoted w) (n : Int) : w ≠ Text.ofInt n := by
  obtain ⟨quote, body, hq, -, rfl⟩ := h
  intro he
  have bare := (isBare_ofInt n).2 quote (he ▸ List.mem_cons_self ..)
  rcases hq with rfl | rfl <;> exact absurd bare (by decide)

namespace Script

variable (s : Script)

/-- Whether integers under a spelled key are ids. -/
def isIdWord (w : Text) : Bool :=
  w == s.quote (Text.ofString "id") || w == s.quote (Text.ofString "target")

theorem isIdWord_quote (key : Text) : s.isIdWord (s.quote key) = isIdKey key := by
  have id : (s.quote key == s.quote (Text.ofString "id")) = (key == Text.ofString "id") :=
    Bool.eq_iff_iff.2 (by
      simpa using ⟨s.quote_eq _ (by decide) key, fun h => by rw [h]⟩)
  have target : (s.quote key == s.quote (Text.ofString "target")) = (key == Text.ofString "target") :=
    Bool.eq_iff_iff.2 (by
      simpa using ⟨s.quote_eq _ (by decide) key, fun h => by rw [h]⟩)
  rw [isIdWord, isIdKey, id, target]

mutual

/-- A spelling in which ids have new numbers. -/
noncomputable def respell (f : Int → Int) (named : Bool) : Spelling → Spelling
  | .word w => .word (if named then respellWord f w else w)
  | .list items => .list (respellItems f items)
  | .record members => .record (respellMembers f members)

noncomputable def respellItems (f : Int → Int) : List Spelling → List Spelling
  | [] => []
  | item :: rest => respell f false item :: respellItems f rest

noncomputable def respellMembers (f : Int → Int) : List (Text × Spelling) → List (Text × Spelling)
  | [] => []
  | (key, v) :: rest => (key, respell f (s.isIdWord key) v) :: respellMembers f rest

end

variable {f : Int → Int}

private theorem respell_word {w : Text} (h : ∀ n, w ≠ Text.ofInt n) (named : Bool) :
    s.respell f named (.word w) = .word w := by
  cases named <;> simp [respell, respellWord_of_ne h]

mutual

theorem spelling_renumber : ∀ (v : Value) (named : Bool),
    s.spelling (v.renumber f named) = s.respell f named (s.spelling v)
  | .int n, named => by
    cases named <;> simp [Value.renumber, spelling, respell, respellWord_ofInt]
  | .array items, named => by
    simp only [Value.renumber, spelling, respell, spellings_renumberItems items]
  | .object members, named => by
    simp only [Value.renumber, spelling, respell, memberSpellings_renumberMembers members]
  | .null, named => (s.respell_word s.null_name.not_integer named).symm
  | .bool b, named => (s.respell_word (s.bool_name b).not_integer named).symm
  | .float x, named => (s.respell_word (s.float_name x).not_integer named).symm
  | .text t, named => (s.respell_word (ne_ofInt_of_isQuoted (s.quoted t)) named).symm

theorem spellings_renumberItems : ∀ items : List Value,
    s.spellings (Value.renumberItems f items) = s.respellItems f (s.spellings items)
  | [] => rfl
  | item :: rest => by
    rw [Value.renumberItems, spellings, spellings, respellItems, spelling_renumber item,
      spellings_renumberItems rest]

theorem memberSpellings_renumberMembers : ∀ members : Members,
    s.memberSpellings (Value.renumberMembers f members) =
      s.respellMembers f (s.memberSpellings members)
  | [] => rfl
  | (key, v) :: rest => by
    rw [Value.renumberMembers, memberSpellings, memberSpellings, respellMembers, s.isIdWord_quote,
      spelling_renumber v, memberSpellings_renumberMembers rest]

end

/-- Values that are spelled alike are spelled alike with new numbers. -/
theorem text_spelling_renumber {v v' : Value} (h : (s.spelling v).text = (s.spelling v').text) :
    (s.spelling (v.renumber f false)).text = (s.spelling (v'.renumber f false)).text := by
  have same := Spelling.text_injective (s.spelling_wellFormed v) (s.spelling_wellFormed v') h
  rw [s.spelling_renumber, s.spelling_renumber, same]

end Script

/-! ## The two scripts in use -/

/-- What tells a word from an integer: neither a digit nor a sign. -/
private def isLetter (c : CodePoint) : Bool := !c.isDigit && c != 0x2d

private theorem isName_of_isLetter {w : Text} (h : ∀ c ∈ w, c.isMark = false) {c : CodePoint}
    (hc : c ∈ w) (letter : isLetter c) : IsName w := by
  simp only [isLetter, Bool.and_eq_true, Bool.not_eq_true', bne_iff_ne] at letter
  refine ⟨⟨List.ne_nil_of_mem hc, h⟩, fun n he => ?_⟩
  rcases mem_ofInt (he ▸ hc) with digit | rfl
  · exact absurd digit (by rw [letter.1]; decide)
  · exact letter.2 rfl

private theorem isMark_of_all {w : Text} (h : w.all (!·.isMark)) : ∀ c ∈ w, c.isMark = false :=
  fun c hc => by simpa using List.all_eq_true.1 h c hc

private theorem isName_of_word {w : Text} (h : w.all (!·.isMark)) (letter : w.any isLetter) :
    IsName w := by
  obtain ⟨c, hc, hletter⟩ := List.any_eq_true.1 letter
  exact isName_of_isLetter (isMark_of_all h) hc hletter

private theorem isName_write {layout : FloatLayout}
    (words : (layout.infinity ++ layout.nan).all (!·.isMark))
    (infinity : layout.infinity.any isLetter) (nan : layout.nan.any isLetter) (x : Binary64) :
    IsName (x.write layout) := by
  obtain ⟨c, hc, letter⟩ := Binary64.exists_mem_write (P := fun c => isLetter c) (by decide)
    (by decide) (List.any_eq_true.1 infinity) (List.any_eq_true.1 nan) x
  refine isName_of_isLetter (fun c hc => ?_) hc letter
  have word := isMark_of_all words c
  rcases Binary64.mem_write hc with h | h | h
  · unfold Binary64.isNumberPoint at h
    simp only [Bool.or_eq_true, beq_iff_eq] at h
    rcases h with (((h | rfl) | rfl) | rfl) | rfl
    · exact isMark_digit h
    all_goals decide
  · exact word (List.mem_append_left _ h)
  · exact word (List.mem_append_right _ h)

/-- Of all texts, one that holds no backslash is written in quotes by itself only. -/
private theorem eq_of_body {quote : CodePoint} {body t key : Text}
    (h : body = t ∨ 0x5c ∈ body) (hkey : 0x5c ∉ key) (he : quote :: (body ++ [quote]) =
      quote :: (key ++ [quote])) : t = key := by
  have same : body = key := List.append_cancel_right (List.cons.inj he).2
  subst same
  exact h.elim Eq.symm fun h => absurd h hkey

/-- Values inside text. -/
def displayScript : Script where
  null := "None"
  bool b := if b then "True" else "False"
  float x := x.write displayLayout
  quote := Text.quoted
  null_name := isName_of_word (by decide) (by decide)
  bool_name b := by cases b <;> exact isName_of_word (by decide) (by decide)
  float_name := isName_write (by decide) (by decide) (by decide)
  quoted t := by
    obtain ⟨quote, body, hq, ht, inside, -⟩ := t.quoted_eq
    exact ⟨quote, body, hq, inside, ht⟩
  quote_eq key hkey t h := by
    obtain ⟨quote, body, -, ht, -, hbody⟩ := t.quoted_eq
    have known : ∀ key ∈ knownKeys, key.quoted = 0x27 :: (key ++ [0x27]) ∧ 0x5c ∉ key := by
      decide +kernel
    rw [ht, (known key hkey).1] at h
    obtain rfl : quote = 0x27 := (List.cons.inj h).1
    exact eq_of_body hbody (known key hkey).2 h

private theorem escapes_escapePoint : Escapes 0x22 (escapePoint true) := by
  -- What is escaped is a backslash, one more code point, and perhaps digits.
  have escaped : ∀ (c : CodePoint) {digits : Text}, Enclosed 0x22 digits →
      Enclosed 0x22 (0x5c :: c :: digits) ∧ 0x5c ∈ (0x5c : CodePoint) :: c :: digits :=
    fun c digits hd => ⟨.escaped hd, List.mem_cons_self ..⟩
  have unit : ∀ n, Enclosed 0x22 (escapeUnit n) ∧ 0x5c ∈ escapeUnit n := fun n =>
    escaped 0x75 (enclosed_hex (.inl rfl) 4 n)
  intro c
  unfold escapePoint
  split
  · exact .inr (escaped _ .nil)
  rename_i hq
  split
  · exact .inr (escaped _ .nil)
  rename_i hb
  iterate 5
    split
    · exact .inr (escaped _ .nil)
  split
  · exact .inr (unit _)
  split
  · split
    · exact .inr (unit _)
    · exact .inr ⟨(unit _).1.append (unit _).1, List.mem_append_left _ (unit _).2⟩
  · exact .inl ⟨rfl, fun h => hq (congrArg Fin.val h), fun h => hb (congrArg Fin.val h)⟩

private theorem writeText_eq (t : Text) :
    writeText true t = 0x22 :: (t.flatMap (escapePoint true) ++ [0x22]) := by
  unfold writeText
  rw [List.append_assoc]
  rfl

/-- JSON in ASCII. -/
def asciiScript : Script where
  null := "null"
  bool b := if b then "true" else "false"
  float x := x.write floatLayout
  quote := writeText true
  null_name := isName_of_word (by decide) (by decide)
  bool_name b := by cases b <;> exact isName_of_word (by decide) (by decide)
  float_name := isName_write (by decide) (by decide) (by decide)
  quoted t := ⟨0x22, _, .inl rfl, (escapes_escapePoint.flatMap t).1, writeText_eq t⟩
  quote_eq key hkey t h := by
    have known : ∀ key ∈ knownKeys, writeText true key = 0x22 :: (key ++ [0x22]) ∧ 0x5c ∉ key := by
      decide +kernel
    rw [writeText_eq, (known key hkey).1] at h
    exact eq_of_body (escapes_escapePoint.flatMap t).2 (known key hkey).2 h

mutual

theorem spelled_eq_text : ∀ v : Value, v.spelled = (displayScript.spelling v).text
  | .null => rfl
  | .bool _ => rfl
  | .int _ => rfl
  | .float _ => rfl
  | .text _ => rfl
  | .array items => by
    simp only [Value.spelled, Script.spelling, Spelling.text, spelledItems_eq_texts items]
  | .object members => by
    simp only [Value.spelled, Script.spelling, Spelling.text, spelledMembers_eq_texts members]

theorem spelledItems_eq_texts : ∀ items : List Value,
    Value.spelledItems items = Spelling.texts (displayScript.spellings items)
  | [] => rfl
  | item :: rest => by
    rw [Value.spelledItems, Script.spellings, Spelling.texts, spelled_eq_text item,
      spelledItems_eq_texts rest]

theorem spelledMembers_eq_texts : ∀ members : Members,
    Value.spelledMembers members = Spelling.memberTexts (displayScript.memberSpellings members)
  | [] => rfl
  | (key, v) :: rest => by
    rw [Value.spelledMembers, Script.memberSpellings, Spelling.memberTexts, spelled_eq_text v,
      spelledMembers_eq_texts rest]
    rfl

end

/-- All on one line, in ASCII. -/
private def oneLine : Form := ⟨none, true⟩

mutual

private theorem writeAt_oneLine : ∀ (v : Value) (level : Nat),
    v.writeAt oneLine level = (asciiScript.spelling v).text
  | .null, _ => rfl
  | .bool _, _ => rfl
  | .int _, _ => rfl
  | .float _, _ => rfl
  | .text _, _ => rfl
  | .array [], _ => rfl
  | .array (item :: rest), level => by
    rw [Value.writeAt, writeAt_oneLine item, writeItems_oneLine rest]
    simp only [Script.spelling, Script.spellings, Spelling.text, Spelling.texts,
      Spelling.joinWith_cons, Form.lineBreak, oneLine, List.append_nil, List.append_assoc]
  | .object [], _ => rfl
  | .object ((key, v) :: rest), level => by
    rw [Value.writeAt, writeAt_oneLine v, writeMembers_oneLine rest]
    simp only [Script.spelling, Script.memberSpellings, Spelling.text, Spelling.memberTexts,
      Spelling.joinWith_cons, Form.lineBreak, oneLine, asciiScript, List.append_nil,
      List.append_assoc]

private theorem writeItems_oneLine : ∀ (items : List Value) (level : Nat),
    Value.writeItems oneLine level items = Spelling.behind (Spelling.texts (asciiScript.spellings items))
  | [], _ => rfl
  | item :: rest, level => by
    rw [Value.writeItems, writeAt_oneLine item, writeItems_oneLine rest, Script.spellings,
      Spelling.texts, Spelling.behind, Spelling.behind, List.flatMap_cons]
    rfl

private theorem writeMembers_oneLine : ∀ (members : Members) (level : Nat),
    Value.writeMembers oneLine level members =
      Spelling.behind (Spelling.memberTexts (asciiScript.memberSpellings members))
  | [], _ => rfl
  | (key, v) :: rest, level => by
    rw [Value.writeMembers, writeAt_oneLine v, writeMembers_oneLine rest, Script.memberSpellings,
      Spelling.memberTexts, Spelling.behind, Spelling.behind, List.flatMap_cons]
    simp only [Form.separator, oneLine, asciiScript, List.append_assoc]

end

theorem asciiText_eq_text (v : Value) : v.asciiText = (asciiScript.spelling v.sortKeys).text :=
  writeAt_oneLine v.sortKeys 0

theorem spelled_renumber {v v' : Value} (h : v.spelled = v'.spelled) (f : Int → Int) :
    (v.renumber f false).spelled = (v'.renumber f false).spelled := by
  simp only [spelled_eq_text] at h ⊢
  exact displayScript.text_spelling_renumber h

theorem asciiText_renumber {v v' : Value} (h : v.asciiText = v'.asciiText) (f : Int → Int) :
    (v.renumber f false).asciiText = (v'.renumber f false).asciiText := by
  simp only [asciiText_eq_text, Value.sortKeys_renumber] at h ⊢
  exact asciiScript.text_spelling_renumber h

/-! ## Members that are told apart -/

@[simp] theorem Value.isContainer_renumber (f : Int → Int) (named : Bool) (v : Value) :
    (v.renumber f named).isContainer = v.isContainer := by
  cases v <;> rfl

theorem Value.renumber_of_not_isContainer {v : Value} (h : v.isContainer = false) (f : Int → Int) :
    v.renumber f false = v := by
  cases v with
  | array items => cases h
  | object members => cases h
  | _ => rfl

theorem lookup_memberSpellings (s : Script) {key : Text} (hkey : key ∈ knownKeys)
    (members : Members) : (s.memberSpellings members).lookup (s.quote key) =
      (members.lookup key).map s.spelling := by
  induction members with
  | nil => rfl
  | cons m rest ih =>
    obtain ⟨k, v⟩ := m
    have same : (s.quote key == s.quote k) = (key == k) :=
      Bool.eq_iff_iff.2 (by
        simpa using ⟨fun h => (s.quote_eq key hkey k h.symm).symm, fun h => by rw [h]⟩)
    rw [Script.memberSpellings, List.lookup_cons, List.lookup_cons, ih, same]
    split <;> rfl

private theorem lookup_insertByKey {key : Text} {v : Value} {members : Members}
    (h : key ∉ members.map (·.1)) (k : Text) :
    (Value.insertByKey (key, v) members).lookup k =
      if k = key then some v else members.lookup k := by
  induction members with
  | nil =>
    rw [Value.insertByKey, List.lookup_cons]
    by_cases hk : k = key
    · simp [hk]
    · simp [beq_eq_false_iff_ne.2 hk, hk]
  | cons m rest ih =>
    obtain ⟨k', w⟩ := m
    simp only [List.map_cons, List.mem_cons, not_or] at h
    rw [Value.insertByKey]
    split
    · rw [List.lookup_cons]
      by_cases hk : k = key
      · simp [hk]
      · simp [beq_eq_false_iff_ne.2 hk, hk]
    · rw [List.lookup_cons, List.lookup_cons, ih h.2]
      by_cases hk : k = k'
      · subst hk
        simp [Ne.symm h.1]
      · simp [beq_eq_false_iff_ne.2 hk]

private theorem keys_insertByKey (m : Text × Value) (members : Members) :
    ((Value.insertByKey m members).map (·.1)).Perm (m.1 :: members.map (·.1)) := by
  induction members with
  | nil => exact .refl _
  | cons m' rest ih =>
    rw [Value.insertByKey]
    split
    · exact .refl _
    · exact (ih.cons _).trans (.swap ..)

private theorem keys_sortKeysMembers (members : Members) :
    ((Value.sortKeysMembers members).map (·.1)).Perm (members.map (·.1)) := by
  induction members with
  | nil => exact .refl _
  | cons m rest ih => exact (keys_insertByKey _ _).trans (ih.cons _)

theorem lookup_sortKeysMembers {members : Members} (h : (Table.keys members).Nodup) (key : Text) :
    (Value.sortKeysMembers members).lookup key = (members.lookup key).map Value.sortKeys := by
  induction members with
  | nil => rfl
  | cons m rest ih =>
    obtain ⟨k, v⟩ := m
    obtain ⟨hk, hrest⟩ := List.nodup_cons.1 h
    have absent : k ∉ (Value.sortKeysMembers rest).map (·.1) := fun hm =>
      hk ((keys_sortKeysMembers rest).subset hm)
    rw [Value.sortKeysMembers, lookup_insertByKey absent, List.lookup_cons, ih hrest]
    by_cases he : key = k
    · simp [he]
    · simp [beq_eq_false_iff_ne.2 he, he]

private theorem isContainer_of_spelling {s : Script} {v v' : Value}
    (h : s.spelling v.sortKeys = s.spelling v'.sortKeys) : v.isContainer = v'.isContainer := by
  cases v <;> cases v' <;> first | rfl | cases h

/-- Objects that are written alike hold others under the same known keys. -/
theorem isContainer_of_asciiText {m m' : Members} (distinct : (Table.keys m).Nodup)
    (distinct' : (Table.keys m').Nodup) (h : (Value.object m).asciiText = (Value.object m').asciiText)
    (key : Text) (hkey : key ∈ knownKeys) :
    (member m key).isContainer = (member m' key).isContainer := by
  rw [asciiText_eq_text, asciiText_eq_text] at h
  have spelled := Spelling.text_injective (asciiScript.spelling_wellFormed _)
    (asciiScript.spelling_wellFormed _) h
  simp only [Value.sortKeys, Script.spelling, Spelling.record.injEq] at spelled
  have found := congrArg (List.lookup (asciiScript.quote key)) spelled
  rw [lookup_memberSpellings _ hkey, lookup_memberSpellings _ hkey, lookup_sortKeysMembers distinct,
    lookup_sortKeysMembers distinct', Option.map_map, Option.map_map] at found
  unfold member member? Table.get?
  cases hm : m.lookup key with
  | none =>
    rw [hm] at found
    rw [Option.map_eq_none_iff.1 found.symm]
  | some v =>
    rw [hm] at found
    obtain ⟨v', hm', hv⟩ := Option.map_eq_some_iff.1 found.symm
    rw [hm']
    exact (isContainer_of_spelling hv).symm

end DocShape.Json
