import DocShape.Json.Display

/-!
Values as they are spelled out on one line, whichever words are used for what holds nothing else. The
text of a spelling can be read in one way only (`Spelling.text_injective`): a bare word ends where no more
of its code points come, a word in quotes ends at its quote, and brackets say what is inside.
-/

namespace DocShape

/-! ## Words -/

/-- The marks between words: the blank, quotes, brackets, the colon and the comma. -/
def CodePoint.isMark (c : CodePoint) : Bool :=
  [0x20, 0x22, 0x27, 0x2c, 0x3a, 0x5b, 0x5d, 0x7b, 0x7d].contains c.val

/-- A word in quotes. -/
def IsQuoted (w : Text) : Prop :=
  ∃ (quote : CodePoint) (body : Text), (quote = 0x22 ∨ quote = 0x27) ∧ Enclosed quote body ∧
    w = quote :: (body ++ [quote])

/-- A word without quotes. -/
def IsBare (w : Text) : Prop := w ≠ [] ∧ ∀ c ∈ w, c.isMark = false

/-- A word ends before such text. -/
def Marked (rest : Text) : Prop := ∀ c ∈ rest.head?, c.isMark

private theorem enclosed_inj {quote : CodePoint} (hq : quote ≠ 0x5c) {b b' r r' : Text}
    (h : Enclosed quote b) (h' : Enclosed quote b') (he : b ++ quote :: r = b' ++ quote :: r') :
    b = b' ∧ r = r' := by
  induction h generalizing b' with
  | nil =>
    cases h' with
    | nil => exact ⟨rfl, (List.cons.inj he).2⟩
    | plain hc _ _ => exact absurd (List.cons.inj he).1.symm hc
    | escaped _ => exact absurd (List.cons.inj he).1 hq
  | plain hc hb _ ih =>
    cases h' with
    | nil => exact absurd (List.cons.inj he).1 hc
    | plain _ _ h' =>
      obtain ⟨rfl, tail⟩ := List.cons.inj he
      obtain ⟨rfl, hr⟩ := ih h' tail
      exact ⟨rfl, hr⟩
    | escaped _ => exact absurd (List.cons.inj he).1 hb
  | escaped _ ih =>
    cases h' with
    | nil => exact absurd (List.cons.inj he).1.symm hq
    | plain _ hb _ => exact absurd (List.cons.inj he).1.symm hb
    | escaped h' =>
      obtain ⟨rfl, tail⟩ := List.cons.inj (List.cons.inj he).2
      obtain ⟨rfl, hr⟩ := ih h' tail
      exact ⟨rfl, hr⟩

theorem IsQuoted.append_inj {w w' r r' : Text} (h : IsQuoted w) (h' : IsQuoted w')
    (he : w ++ r = w' ++ r') : w = w' ∧ r = r' := by
  obtain ⟨quote, body, hq, hb, rfl⟩ := h
  obtain ⟨quote', body', -, hb', rfl⟩ := h'
  simp only [List.cons_append, List.append_assoc, List.nil_append] at he
  obtain ⟨rfl, he⟩ := List.cons.inj he
  have other : quote ≠ 0x5c := by rcases hq with rfl | rfl <;> decide
  obtain ⟨rfl, hr⟩ := enclosed_inj other hb hb' he
  exact ⟨rfl, hr⟩

theorem IsBare.append_inj {w w' r r' : Text} (h : IsBare w) (h' : IsBare w') (hr : Marked r)
    (hr' : Marked r') (he : w ++ r = w' ++ r') : w = w' ∧ r = r' := by
  have whole : ∀ {w r : Text}, IsBare w → Marked r → (w ++ r).takeWhile (!·.isMark) = w := by
    intro w r h hr
    rw [List.takeWhile_append_of_pos fun c hc => by rw [h.2 c hc]; rfl]
    cases r with
    | nil => simp
    | cons c rest =>
      rw [List.takeWhile_cons_of_neg (by simpa using hr c rfl), List.append_nil]
  have words : w = w' := by rw [← whole h hr, he, whole h' hr']
  subst words
  exact ⟨rfl, List.append_cancel_left he⟩

/-- A word, with quotes or without. -/
def IsWord (w : Text) : Prop := IsQuoted w ∨ IsBare w

/-- What a word begins with. -/
private def Begins (c : CodePoint) : Prop := c = 0x22 ∨ c = 0x27 ∨ c.isMark = false

private theorem IsQuoted.begins {w : Text} (h : IsQuoted w) :
    ∃ c rest, w = c :: rest ∧ (c = 0x22 ∨ c = 0x27) := by
  obtain ⟨quote, body, hq, -, rfl⟩ := h
  exact ⟨quote, _, rfl, hq⟩

private theorem IsBare.begins {w : Text} (h : IsBare w) :
    ∃ c rest, w = c :: rest ∧ c.isMark = false := by
  cases w with
  | nil => exact absurd rfl h.1
  | cons c rest => exact ⟨c, rest, rfl, h.2 c (List.mem_cons_self ..)⟩

private theorem IsWord.begins {w : Text} (h : IsWord w) : ∃ c rest, w = c :: rest ∧ Begins c := by
  rcases h with h | h
  · obtain ⟨c, rest, rfl, hc⟩ := h.begins
    exact ⟨c, rest, rfl, hc.imp_right .inl⟩
  · obtain ⟨c, rest, rfl, hc⟩ := h.begins
    exact ⟨c, rest, rfl, .inr (.inr hc)⟩

theorem IsWord.append_inj {w w' r r' : Text} (h : IsWord w) (h' : IsWord w') (hr : Marked r)
    (hr' : Marked r') (he : w ++ r = w' ++ r') : w = w' ∧ r = r' := by
  -- A quote is a mark, so a word in quotes is no bare one.
  have apart : ∀ {w w' r r' : Text}, IsQuoted w → IsBare w' → w ++ r ≠ w' ++ r' := by
    intro w w' r r' h h' he
    obtain ⟨c, rest, rfl, hc⟩ := h.begins
    obtain ⟨c', rest', rfl, hc'⟩ := h'.begins
    obtain ⟨rfl, -⟩ := List.cons.inj he
    rcases hc with rfl | rfl <;> exact absurd hc' (by decide)
  rcases h with h | h <;> rcases h' with h' | h'
  · exact h.append_inj h' he
  · exact absurd he (apart h h')
  · exact absurd he.symm (apart h' h)
  · exact h.append_inj h' hr hr' he

/-! ## Spellings -/

/-- A word, or a list or a record of spellings. -/
inductive Spelling
  | word (w : Text)
  | list (items : List Spelling)
  | record (members : List (Text × Spelling))

namespace Spelling

mutual

def text : Spelling → Text
  | word w => w
  | list items => "[" ++ Text.joinWith ", " (texts items) ++ "]"
  | record members => "\x7b" ++ Text.joinWith ", " (memberTexts members) ++ "\x7d"

def texts : List Spelling → List Text
  | [] => []
  | item :: rest => item.text :: texts rest

def memberTexts : List (Text × Spelling) → List Text
  | [] => []
  | (key, s) :: rest => (key ++ ": " ++ s.text) :: memberTexts rest

end

theorem texts_eq_map (items : List Spelling) : texts items = items.map text := by
  induction items with
  | nil => rfl
  | cons item rest ih => rw [texts, ih, List.map_cons]

theorem memberTexts_eq_map (members : List (Text × Spelling)) :
    memberTexts members = members.map fun m => m.1 ++ ([0x3a, 0x20] ++ m.2.text) := by
  induction members with
  | nil => rfl
  | cons m rest ih =>
    rw [memberTexts, ih, List.map_cons, List.append_assoc]
    rfl

/-- All words are words, and all keys stand in quotes. -/
inductive WellFormed : Spelling → Prop
  | word {w : Text} : IsWord w → WellFormed (word w)
  | list {items : List Spelling} : (∀ s ∈ items, WellFormed s) → WellFormed (list items)
  | record {members : List (Text × Spelling)} : (∀ m ∈ members, IsQuoted m.1) →
    (∀ m ∈ members, WellFormed m.2) → WellFormed (record members)

/-! ## One reading only -/

/-- What a spelling begins with. -/
private def Opens (c : CodePoint) : Spelling → Prop
  | word _ => Begins c
  | list _ => c = 0x5b
  | record _ => c = 0x7b

private theorem WellFormed.opens {s : Spelling} (h : s.WellFormed) :
    ∃ c rest, s.text = c :: rest ∧ s.Opens c := by
  cases h with
  | word hw =>
    obtain ⟨c, rest, rfl, hc⟩ := hw.begins
    exact ⟨c, rest, by rw [text], hc⟩
  | list => exact ⟨0x5b, _, by rw [text]; rfl, rfl⟩
  | record => exact ⟨0x7b, _, by rw [text]; rfl, rfl⟩

private theorem Begins.ne_bracket {c : CodePoint} (h : Begins c) :
    c ≠ 0x5b ∧ c ≠ 0x5d ∧ c ≠ 0x7b ∧ c ≠ 0x7d := by
  rcases h with rfl | rfl | h
  · decide
  · decide
  · refine ⟨?_, ?_, ?_, ?_⟩ <;> rintro rfl <;> exact absurd h (by decide)

private theorem Opens.ne_close {c : CodePoint} {s : Spelling} (h : s.Opens c) :
    c ≠ 0x5d ∧ c ≠ 0x7d := by
  cases s with
  | word w => exact ⟨(Begins.ne_bracket h).2.1, (Begins.ne_bracket h).2.2.2⟩
  | list items => exact h ▸ by decide
  | record members => exact h ▸ by decide

/-- The parts behind a first one. -/
def behind (parts : List Text) : Text := parts.flatMap fun part => ", " ++ part

theorem joinWith_cons (part : Text) (rest : List Text) :
    Text.joinWith ", " (part :: rest) = part ++ behind rest := by
  unfold Text.joinWith behind
  induction rest generalizing part with
  | nil => simp [List.intercalate]
  | cons next rest ih =>
    rw [List.intercalate_cons_cons, ih, List.flatMap_cons]
    simp

private theorem marked_behind (parts : List Text) {close : CodePoint} (h : close.isMark) (r : Text) :
    Marked (behind parts ++ close :: r) := by
  intro c hc
  cases parts with
  | nil =>
    cases hc
    exact h
  | cons part rest =>
    cases hc
    decide

section

variable {α : Type} {f : α → Text} {close : CodePoint}

/-- Parts of which each can be read in one way only. -/
private def Separable (f : α → Text) (as bs : List α) : Prop :=
  ∀ a ∈ as, ∀ b ∈ bs, ∀ {r r' : Text}, Marked r → Marked r' → f a ++ r = f b ++ r' →
    a = b ∧ r = r'

private theorem behind_inj (mark : close.isMark) (comma : close ≠ 0x2c) {as bs : List α}
    (h : Separable f as bs) {r r' : Text}
    (he : behind (as.map f) ++ close :: r = behind (bs.map f) ++ close :: r') : as = bs ∧ r = r' := by
  induction as generalizing bs with
  | nil =>
    cases bs with
    | nil => exact ⟨rfl, (List.cons.inj he).2⟩
    | cons b bs => exact absurd (List.cons.inj he).1 comma
  | cons a as ih =>
    cases bs with
    | nil => exact absurd (List.cons.inj he).1.symm comma
    | cons b bs =>
      simp only [behind, List.map_cons, List.flatMap_cons, List.append_assoc,
        List.append_cancel_left_eq] at he
      obtain ⟨rfl, tail⟩ := h a (List.mem_cons_self ..) b (List.mem_cons_self ..)
        (marked_behind _ mark _) (marked_behind _ mark _) he
      obtain ⟨rfl, hr⟩ := ih (fun a ha b hb => h a (List.mem_cons_of_mem _ ha) b
        (List.mem_cons_of_mem _ hb)) tail
      exact ⟨rfl, hr⟩

private theorem joinWith_inj (mark : close.isMark) (comma : close ≠ 0x2c) {as bs : List α}
    (h : Separable f as bs) (opens : ∀ a ∈ as ++ bs, ∃ c rest, f a = c :: rest ∧ c ≠ close)
    {r r' : Text} (he : Text.joinWith ", " (as.map f) ++ close :: r =
      Text.joinWith ", " (bs.map f) ++ close :: r') : as = bs ∧ r = r' := by
  have closed : ∀ a ∈ as ++ bs, ∀ s t, f a ++ s ≠ close :: t := by
    intro a ha s t he
    obtain ⟨c, rest, hf, hc⟩ := opens a ha
    rw [hf] at he
    exact hc (List.cons.inj he).1
  cases as with
  | nil =>
    cases bs with
    | nil => exact ⟨rfl, (List.cons.inj he).2⟩
    | cons b bs =>
      rw [List.map_cons, joinWith_cons, List.append_assoc] at he
      exact absurd he.symm (closed b (by simp) _ _)
  | cons a as =>
    cases bs with
    | nil =>
      rw [List.map_cons, joinWith_cons, List.append_assoc] at he
      exact absurd he (closed a (by simp) _ _)
    | cons b bs =>
      rw [List.map_cons, List.map_cons, joinWith_cons, joinWith_cons, List.append_assoc,
        List.append_assoc] at he
      obtain ⟨rfl, tail⟩ := h a (List.mem_cons_self ..) b (List.mem_cons_self ..)
        (marked_behind _ mark _) (marked_behind _ mark _) he
      obtain ⟨rfl, hr⟩ := behind_inj mark comma (fun a ha b hb => h a (List.mem_cons_of_mem _ ha) b
        (List.mem_cons_of_mem _ hb)) tail
      exact ⟨rfl, hr⟩

end

private theorem opens_alike {a b : Spelling} (ha : a.WellFormed) (hb : b.WellFormed) {r r' : Text}
    (he : a.text ++ r = b.text ++ r') : ∃ c, a.Opens c ∧ b.Opens c := by
  obtain ⟨c, rest, hs, hc⟩ := ha.opens
  obtain ⟨c', rest', hs', hc'⟩ := hb.opens
  rw [hs, hs'] at he
  exact ⟨c, hc, (List.cons.inj he).1 ▸ hc'⟩

private theorem text_inj {a b : Spelling} (ha : a.WellFormed) (hb : b.WellFormed) {r r' : Text}
    (hr : Marked r) (hr' : Marked r') (he : a.text ++ r = b.text ++ r') : a = b ∧ r = r' := by
  induction ha generalizing b r r' with
  | @word w hw =>
    obtain ⟨c, hc, hc'⟩ := opens_alike (.word hw) hb he
    cases hb with
    | word hw' =>
      simp only [text] at he
      obtain ⟨rfl, hrest⟩ := hw.append_inj hw' hr hr' he
      exact ⟨rfl, hrest⟩
    | list => exact absurd hc' (Begins.ne_bracket hc).1
    | record => exact absurd hc' (Begins.ne_bracket hc).2.2.1
  | @list items hitems ih =>
    obtain ⟨c, hc, hc'⟩ := opens_alike (.list hitems) hb he
    cases hb with
    | word => exact absurd hc (Begins.ne_bracket hc').1
    | @list items' hitems' =>
      simp only [text, texts_eq_map, List.append_assoc, List.append_cancel_left_eq] at he
      have opens : ∀ s ∈ items ++ items', ∃ c rest, s.text = c :: rest ∧ c ≠ 0x5d := by
        intro s hs
        have hs : s.WellFormed := (List.mem_append.1 hs).elim (hitems s) (hitems' s)
        obtain ⟨c, rest, ht, hc⟩ := hs.opens
        exact ⟨c, rest, ht, hc.ne_close.1⟩
      obtain ⟨rfl, hrest⟩ := joinWith_inj (by decide) (by decide)
        (fun a ha b hb _ _ hr hr' he => ih a ha (hitems' b hb) hr hr' he) opens he
      exact ⟨rfl, hrest⟩
    | record => exact absurd (hc.symm.trans hc') (by decide)
  | @record members hkeys hmembers ih =>
    obtain ⟨c, hc, hc'⟩ := opens_alike (.record hkeys hmembers) hb he
    cases hb with
    | word => exact absurd hc (Begins.ne_bracket hc').2.2.1
    | list => exact absurd (hc.symm.trans hc') (by decide)
    | @record members' hkeys' hmembers' =>
      simp only [text, memberTexts_eq_map, List.append_assoc, List.append_cancel_left_eq] at he
      have opens : ∀ m ∈ members ++ members', ∃ c rest,
          m.1 ++ ([0x3a, 0x20] ++ m.2.text) = c :: rest ∧ c ≠ 0x7d := by
        intro m hm
        have hm : IsQuoted m.1 := (List.mem_append.1 hm).elim (hkeys m) (hkeys' m)
        obtain ⟨c, rest, ht, hc⟩ := hm.begins
        refine ⟨c, _, by rw [ht]; rfl, ?_⟩
        rcases hc with rfl | rfl <;> decide
      have separable : Separable (fun m : Text × Spelling => m.1 ++ ([0x3a, 0x20] ++ m.2.text))
          members members' := by
        intro m hm m' hm' s s' hs hs' he
        simp only [List.append_assoc] at he
        obtain ⟨key, tail⟩ := (hkeys m hm).append_inj (hkeys' m' hm') he
        obtain ⟨value, rest⟩ := ih m hm (hmembers' m' hm') hs hs' (List.append_cancel_left tail)
        exact ⟨Prod.ext key value, rest⟩
      obtain ⟨rfl, hrest⟩ := joinWith_inj (by decide) (by decide) separable opens he
      exact ⟨rfl, hrest⟩

/-- A text spells one thing. -/
theorem text_injective {a b : Spelling} (ha : a.WellFormed) (hb : b.WellFormed)
    (h : a.text = b.text) : a = b := by
  have nothing : Marked [] := fun c hc => by cases hc
  exact (text_inj ha hb nothing nothing (congrArg (· ++ []) h)).1

end Spelling

end DocShape
